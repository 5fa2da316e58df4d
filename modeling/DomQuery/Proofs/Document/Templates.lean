import DomQuery.Proofs.Document.Distribution
import DomQuery.Proofs.Document.Enclosing
import DomQuery.Proofs.Document.Rearranging

/-!
Copies of a template around nodes. A wrapper that has got its nodes can be told from what is left when
they are taken out again: a copy of the template, with nodes that stand at the end of its innermost
element. Later wrappers go next to old nodes or into them, so they leave it as it is.
-/
namespace DomQuery.Document
variable {d d' mid source : Document} {n m p q t w first : NodeId} {ns inside : List NodeId}

/-! The innermost element. -/

/-- The first of the children that are elements. -/
def FirstElement (d : Document) (n c : NodeId) : Prop :=
  ∃ before after, d.children n = before ++ c :: after ∧ d.isElement c ∧ ∀ m ∈ before, ¬ d.isElement m

/-- Steps to the first child that is an element lead down to a node without one. -/
structure Innermost (d : Document) (n inner : NodeId) : Prop where
  reached : Relation.ReflTransGen d.FirstElement n inner
  last : ∀ c ∈ d.children inner, ¬ d.isElement c

theorem firstElement_iff : d.FirstElement n m ↔ (d.elementChildren n).head? = some m := by
  rw [elementChildren, List.head?_filter, List.find?_eq_some_iff_append]
  simp only [FirstElement, Bool.not_eq_true', Bool.not_eq_true]
  constructor
  · rintro ⟨before, after, hchildren, hm, hbefore⟩
    exact ⟨hm, before, after, hchildren, hbefore⟩
  · rintro ⟨hm, before, after, hchildren, hbefore⟩
    exact ⟨before, after, hchildren, hm, hbefore⟩

theorem FirstElement.mem_children (hm : d.FirstElement n m) : m ∈ d.children n :=
  List.mem_of_mem_filter (List.mem_of_mem_head? (Option.mem_def.2 (firstElement_iff.1 hm)))

theorem Innermost.unique (hp : d.Innermost n p) (hq : d.Innermost n q) : p = q := by
  have hstop {a b : NodeId} (hab : Relation.ReflTransGen d.FirstElement a b)
      (ha : ∀ c ∈ d.children a, ¬ d.isElement c) : a = b := by
    rcases hab.cases_head with heq | ⟨c, ⟨before, after, hchildren, hc, -⟩, -⟩
    · exact heq
    · exact absurd hc (ha c (hchildren ▸ List.mem_append_right before List.mem_cons_self))
  have hright : Relator.RightUnique d.FirstElement := fun a b c hb hc =>
    Option.some.inj ((firstElement_iff.1 hb).symm.trans (firstElement_iff.1 hc))
  rcases hp.reached.total_of_right_unique hright hq.reached with hpq | hqp
  · exact hstop hpq hp.last
  · exact (hstop hqp hq.last).symm

/-- The way down ends before the bound does. -/
theorem WellFormed.innermost_innermostWithin (h : d.WellFormed) (hn : d.isAllocated n) {bound : Nat}
    (hbound : d.slots.size ≤ bound + (d.ancestors n).length) :
    d.Innermost n (d.innermostWithin bound n) := by
  induction bound generalizing n with
  | zero =>
    have hdepth := h.length_ancestors_lt (n := n) (Nat.zero_lt_of_lt (lt_fresh hn))
    omega
  | succ bound ih =>
    rw [innermostWithin]
    split
    · rename_i c hc
      have hfirst : d.FirstElement n c := firstElement_iff.2 hc
      have hinner := ih (h.isAllocated_child hfirst.mem_children) (by
        rw [h.ancestors_of_parent? (h.parent?_eq_some_iff.2 hfirst.mem_children), List.length_cons]
        omega)
      exact ⟨hinner.reached.head hfirst, hinner.last⟩
    · rename_i hnone
      exact ⟨.refl, List.filter_eq_nil_iff.1 (List.head?_eq_none_iff.1 hnone)⟩

theorem WellFormed.innermost_innermost (h : d.WellFormed) (hn : d.isAllocated n) :
    d.Innermost n (d.innermost n) :=
  h.innermost_innermostWithin hn (Nat.le_add_right ..)

theorem WellFormed.liesIn_of_reached (h : d.WellFormed)
    (hm : Relation.ReflTransGen d.FirstElement n m) : d.LiesIn m n := by
  induction hm with
  | refl => exact .inl rfl
  | tail _ hfirst ih => exact .trans (.inr (h.isWithin_of_mem_children hfirst.mem_children)) ih

section Same
variable (h : d.WellFormed)
  (hsame : ∀ k, d.LiesIn k n → d'.data? k = d.data? k ∧ d'.children k = d.children k)
include h hsame

theorem WellFormed.isElement_of_same (hm : d.LiesIn m n) (hc : p ∈ d.children m) :
    d'.isElement p = d.isElement p :=
  isElement_congr (hsame p (.trans (.inr (h.isWithin_of_mem_children hc)) hm)).1

theorem WellFormed.reached_of_same (hm : Relation.ReflTransGen d.FirstElement n m) :
    Relation.ReflTransGen d'.FirstElement n m := by
  induction hm with
  | refl => exact .refl
  | @tail k c hk hfirst ih =>
    have hlies := h.liesIn_of_reached hk
    refine ih.tail ?_
    rw [firstElement_iff, elementChildren, (hsame k hlies).2,
      List.filter_congr fun c hc => h.isElement_of_same hsame hlies hc]
    exact firstElement_iff.1 hfirst

theorem WellFormed.innermost_of_same (hinner : d.Innermost n m) : d'.Innermost n m := by
  have hlies := h.liesIn_of_reached hinner.reached
  refine ⟨h.reached_of_same hsame hinner.reached, fun c hc => ?_⟩
  rw [(hsame m hlies).2] at hc
  rw [h.isElement_of_same hsame hlies hc]
  exact hinner.last c hc

end Same

/-! Wrappers. -/

/-- The node `w` is the top of a copy of `t`, which is made of nodes that the document of `t` does not
have, and the nodes `inside` stand at the end of its innermost element. -/
structure Wraps (source : Document) (t : NodeId) (d : Document) (w : NodeId) (inside : List NodeId) :
    Prop where
  alike : source.Alike (inside.foldl detach d) t w
  le_of_liesIn : ∀ m, (inside.foldl detach d).LiesIn m w → source.fresh ≤ m
  suffix : ∃ inner, (inside.foldl detach d).Innermost w inner ∧ inside <:+ d.children inner

theorem Wraps.isAllocated (hw : source.Wraps t d w inside) (ht : source.isAllocated t) :
    d.isAllocated w := by
  obtain ⟨x, hx⟩ := isAllocated_iff.1 ht
  exact isAllocated_iff.2 ⟨x, (data?_foldl_detach inside d w).symm.trans (hw.alike.data?.trans hx)⟩

theorem Wraps.of_same (hw : source.Wraps t d w inside) (hsource : source.WellFormed)
    (ht : source.isAllocated t) (h : d.WellFormed) (h' : d'.WellFormed)
    (hsame : ∀ m, source.fresh ≤ m → d.isAllocated m →
      d'.data? m = d.data? m ∧ d'.children m = d.children m) : source.Wraps t d' w inside := by
  have he := h.foldl_detach inside
  have he' := h'.foldl_detach inside
  have hdata (m : NodeId) := data?_foldl_detach inside d m
  have htop := (isAllocated_congr (hdata w)).2 (hw.isAllocated ht)
  have hbelow (m : NodeId) (hm : (inside.foldl detach d).LiesIn m w) :
      d'.data? m = d.data? m ∧ d'.children m = d.children m :=
    hsame m (hw.le_of_liesIn m hm) ((isAllocated_congr (hdata m)).1 (hm.isAllocated htop))
  have hkept (m : NodeId) (hm : (inside.foldl detach d).LiesIn m w) :
      (inside.foldl detach d').data? m = (inside.foldl detach d).data? m ∧
        (inside.foldl detach d').children m = (inside.foldl detach d).children m := by
    obtain ⟨hdata', hchildren⟩ := hbelow m hm
    rw [data?_foldl_detach, hdata, h'.children_foldl_detach, h.children_foldl_detach, hchildren]
    exact ⟨hdata', rfl⟩
  refine ⟨hsource.alike_trans hw.alike (he.alike_of_same hkept), fun m hm => ?_, ?_⟩
  · exact hw.le_of_liesIn m ((he.liesIn_congr he' fun m hm => (hkept m hm).2).1 hm)
  · obtain ⟨inner, hinner, hsuffix⟩ := hw.suffix
    refine ⟨inner, he.innermost_of_same hkept hinner, ?_⟩
    rw [(hbelow inner (he.liesIn_of_reached hinner.reached)).2]
    exact hsuffix

theorem Wraps.of_alike (hw : d.Wraps t d' w inside) (hsource : source.WellFormed)
    (halike : source.Alike d t t) (hle : source.fresh ≤ d.fresh) : source.Wraps t d' w inside where
  alike := hsource.alike_trans halike hw.alike
  le_of_liesIn m hm := hle.trans (hw.le_of_liesIn m hm)
  suffix := hw.suffix

/-- A copy of the template has been put somewhere, or nowhere, and the old nodes are where they were. -/
structure Stands (d : Document) (t : NodeId) (mid : Document) (w : NodeId) : Prop where
  wellFormed : mid.WellFormed
  toExtends : d.Extends mid
  parent?_of_lt : ∀ m < d.fresh, mid.parent? m = d.parent? m
  alike : d.Alike mid t w
  isElement : mid.isElement w
  le_of_liesIn : ∀ m, mid.LiesIn m w → d.fresh ≤ m
  lt_of_parent? : ∀ p, mid.parent? w = some p → p < d.fresh

section Copy
variable (h : d.WellFormed) (ht : d.isElement t)
include h ht

theorem WellFormed.stands_copy : d.Stands t (d.copy t true).1 (d.copy t true).2 ∧
    (d.copy t true).1.parent? (d.copy t true).2 = none := by
  have hadds := h.adds_copy t true
  have hparent : (d.copy t true).1.parent? (d.copy t true).2 = none :=
    ((planted_plantUnder d none (h.tidy_treeAt t)).of_mem _ List.mem_cons_self).2.2
  refine ⟨⟨hadds.wellFormed, hadds.grows.toExtends, fun m hm => hadds.grows.parent?_of_lt hm,
    h.copy_alike (isAllocated_of_isElement ht) (.refl hadds.wellFormed), h.isElement_copy ht, fun m hm => ?_,
    fun p hp => ?_⟩, hparent⟩
  · exact hadds.grows.le_of_liesIn hm (hadds.of_mem _ List.mem_cons_self).1
  · cases hparent.symm.trans hp

theorem WellFormed.stands_put {spot : Spot} (hp : spot.parent? (d.copy t true).1 = some p)
    (hold : d.isAllocated p) (hleaf : ¬ d.isLeaf p) :
    d.Stands t ((d.copy t true).1.put spot (d.copy t true).2) (d.copy t true).2 := by
  have hadds := h.adds_copy t true
  obtain ⟨hstands, hbare⟩ := h.stands_copy ht
  generalize d.copy t true = copied at hp hadds hstands hbare ⊢
  obtain ⟨read, w⟩ := copied
  obtain ⟨hle, hw⟩ := hadds.of_mem w List.mem_cons_self
  have hread := hadds.wellFormed
  have hpold := hadds.grows.toExtends.isAllocated hold
  have hput := hread.put hw (has_of_parent? hp hpold) (hadds.refusal?_eq_none hp hold hleaf)
  have hnext : ¬ spot.isNextTo w := fun hnext => by
    cases (hbare.symm.trans (parent?_of_isNextTo hnext).symm).trans hp
  have hnew (m : NodeId) (hm : (read.put spot w).LiesIn m w) : d.fresh ≤ m := hadds.le_of_liesIn_put hp hm
  refine ⟨hput, hadds.grows.toExtends.trans (extends_put read spot w), (hadds.links_put h hp hold).1, ?_,
    (isElement_congr (data?_put read spot w w)).trans hstands.isElement, hnew, fun q hq => ?_⟩
  · refine h.alike_trans hstands.alike (hread.alike_of_same fun m hm => ⟨data?_put read spot w m, ?_⟩)
    have hne : m ≠ p := Nat.ne_of_gt (Nat.lt_of_lt_of_le (lt_fresh hold) (hstands.le_of_liesIn m hm))
    rw [hread.children_put hnext hp hpold, if_neg hne, List.erase_of_not_mem]
    intro hmem
    cases hbare.symm.trans (hread.parent?_eq_some_iff.2 hmem)
  · rw [parent?_put hw hp, if_pos rfl] at hq
    exact Option.some.inj hq ▸ lt_fresh hold

end Copy

theorem WellFormed.children_takenBack (h : d.WellFormed) (hq : d.isAllocated q) (hleaf : ¬ d.isLeaf q)
    (hnodup : ns.Nodup) (hns : ∀ n ∈ ns, d.isAllocated n) (hout : ∀ n ∈ ns, ¬ d.LiesIn q n) (m : NodeId) :
    (ns.foldl Document.detach (d.tryPutAll (.lastIn q) ns)).children m = (d.children m).filter (· ∉ ns) := by
  rw [(h.tryPutAll hns (show d.Has (.lastIn q) from hq)).children_foldl_detach,
    (h.links_tryPutAll hq hleaf hnodup hns hout).2.1, List.filter_append, List.filter_filter]
  split <;> simp

theorem Stands.not_liesIn (hstands : d.Stands t mid w) (h : d.WellFormed) (hm : mid.LiesIn m w)
    (hn : d.isAllocated n) (hout : ∀ p, mid.parent? w = some p → ¬ d.LiesIn p n) : ¬ mid.LiesIn m n := by
  have hold {x : NodeId} (hx : d.fresh ≤ x) : x ≠ n := Nat.ne_of_gt (Nat.lt_of_lt_of_le (lt_fresh hn) hx)
  intro hlies
  rcases liesIn_total hm hlies with (rfl | hwithin) | hnw
  · exact hold (hstands.le_of_liesIn w (.inl rfl)) rfl
  · obtain ⟨p, hp⟩ := exists_parent?_of_isWithin hwithin
    exact hout p hp ((h.liesIn_iff_of_lt hstands.parent?_of_lt (hstands.lt_of_parent? p hp)).1
      ((isWithin_iff_of_parent? hp).1 hwithin))
  · exact hold (hstands.le_of_liesIn n hnw) rfl

/-- Nodes go into a copy that does not lie below any of them. -/
theorem Stands.fill (hstands : d.Stands t mid w) (h : d.WellFormed) (hnodup : ns.Nodup)
    (hns : ∀ n ∈ ns, d.isAllocated n ∧ ∀ p, mid.parent? w = some p → ¬ d.LiesIn p n) :
    let d' := mid.tryPutAll (.lastIn (mid.innermost w)) ns
    d'.WellFormed ∧ d.Extends d' ∧ d.Wraps t d' w ns ∧ d'.parent? w = mid.parent? w ∧
      (∀ m < d.fresh, m ∉ ns → d'.parent? m = d.parent? m) ∧
      ∀ q < d.fresh, d'.children q = (mid.children q).filter (· ∉ ns) := by
  intro d'
  have hmid := hstands.wellFormed
  have hnot {m : NodeId} (hm : d.fresh ≤ m) : m ∉ ns :=
    fun hmem => Nat.not_lt_of_le hm (lt_fresh (hns m hmem).1)
  have hmem (n : NodeId) (hn : n ∈ ns) := hstands.toExtends.isAllocated (hns n hn).1
  have hinner := hmid.liesIn_innermost w
  have hallocated := isAllocated_of_isElement (isElement_innermost hstands.isElement)
  have hleaf := not_isLeaf_of_isElement (isElement_innermost hstands.isElement)
  have hout (n : NodeId) (hn : n ∈ ns) := hstands.not_liesIn h hinner (hns n hn).1 (hns n hn).2
  obtain ⟨hparents, hlists, -⟩ := hmid.links_tryPutAll hallocated hleaf hnodup hmem hout
  have hd' : d'.WellFormed := hmid.tryPutAll hmem hallocated
  have hmore := extends_tryPutAll (.lastIn (mid.innermost w)) ns mid
  have hlist (m : NodeId) : d'.children m =
      (mid.children m).filter (· ∉ ns) ++ if m = mid.innermost w then ns else [] := hlists m
  -- without the nodes the copy is as it was
  have hkept (m : NodeId) (hm : mid.LiesIn m w) : (ns.foldl detach d').data? m = mid.data? m ∧
      (ns.foldl detach d').children m = mid.children m := by
    have hlt := lt_fresh (hm.isAllocated (isAllocated_of_isElement hstands.isElement))
    refine ⟨(data?_foldl_detach ns d' m).trans (hmore.data? m hlt), ?_⟩
    refine (hmid.children_takenBack hallocated hleaf hnodup hmem hout m).trans (List.filter_eq_self.2 ?_)
    refine fun c hc => decide_eq_true (hnot (hstands.le_of_liesIn c ?_))
    exact .trans (.inr (hmid.isWithin_of_mem_children hc)) hm
  have he := hd'.foldl_detach ns
  have hwraps : d.Wraps t d' w ns := by
    refine ⟨h.alike_trans hstands.alike (hmid.alike_of_same hkept), fun m hm => ?_, ?_⟩
    · exact hstands.le_of_liesIn m ((hmid.liesIn_congr he fun m hm => (hkept m hm).2).1 hm)
    · have hway := hmid.innermost_innermost (isAllocated_of_isElement hstands.isElement)
      refine ⟨_, hmid.innermost_of_same hkept hway, ?_⟩
      rw [hlist, if_pos rfl]
      exact List.suffix_append ..
  refine ⟨hd', hstands.toExtends.trans hmore, hwraps, ?_, fun m hm hnot => ?_, fun q hq => ?_⟩
  · rw [hparents, if_neg (hnot (hstands.le_of_liesIn w (.inl rfl)))]
  · rw [hparents, if_neg hnot, hstands.parent?_of_lt m hm]
  · have hne : q ≠ mid.innermost w := Nat.ne_of_lt (Nat.lt_of_lt_of_le hq (hstands.le_of_liesIn _ hinner))
    rw [hlist, if_neg hne, List.append_nil]

/-! What wrapping does. -/

/-- The old nodes are there and hold what they held. -/
structure Retains (old d' : Document) : Prop where
  wellFormed : d'.WellFormed
  data? : ∀ m < old.fresh, d'.data? m = old.data? m
  fresh_le : old.fresh ≤ d'.fresh

theorem Retains.refl (h : d.WellFormed) : d.Retains d := ⟨h, fun _ _ => rfl, Nat.le_refl _⟩

theorem Retains.trans (h : d.Retains mid) (h' : mid.Retains d') : d.Retains d' where
  wellFormed := h'.wellFormed
  data? m hm := (h'.data? m (Nat.lt_of_lt_of_le hm h.fresh_le)).trans (h.data? m hm)
  fresh_le := h.fresh_le.trans h'.fresh_le

/-- The nodes `ns` are in one wrapper, which stands where the first of them stood. -/
structure WrappedTogether (old source : Document) (t : NodeId) (d' : Document) (first : NodeId)
    (ns : List NodeId) (w : NodeId) : Prop extends old.Retains d' where
  wraps : source.Wraps t d' w ns
  parent?_wrapper : d'.parent? w = old.parent? first
  children : ∀ q < old.fresh, d'.children q =
    (old.children q).flatMap fun c => if c = first then [w] else if c ∈ ns then [] else [c]
  parent? : ∀ m < old.fresh, m ∉ ns → d'.parent? m = old.parent? m

/-- Each of the nodes `ns` is in a wrapper of its own, which stands where it stood. -/
structure WrappedEach (old source : Document) (t : NodeId) (d' : Document) (ns : List NodeId)
    (wrapper : NodeId → NodeId) : Prop extends old.Retains d' where
  wraps : ∀ n ∈ ns, source.Wraps t d' (wrapper n) [n]
  distinct : ∀ n ∈ ns, ∀ m ∈ ns, wrapper n = wrapper m → n = m
  parent?_wrapper : ∀ n ∈ ns, d'.parent? (wrapper n) = old.parent? n
  children : ∀ q < old.fresh, d'.children q =
    (old.children q).map fun c => if c ∈ ns then wrapper c else c
  parent? : ∀ m < old.fresh, m ∉ ns → d'.parent? m = old.parent? m

/-- What was in one of the nodes `ns` is in a wrapper now, which is all that the node has in it; texts and
comments have nothing in them and get no wrapper. -/
structure WrappedInside (old source : Document) (t : NodeId) (d' : Document) (ns : List NodeId)
    (wrapper : NodeId → NodeId) : Prop extends old.Retains d' where
  wraps : ∀ n ∈ ns, ¬ old.isLeaf n → source.Wraps t d' (wrapper n) (old.children n)
  children : ∀ q < old.fresh, d'.children q =
    if q ∈ ns ∧ ¬ old.isLeaf q then [wrapper q] else old.children q
  parent? : ∀ m < old.fresh, (∀ n ∈ ns, old.parent? m ≠ some n) → d'.parent? m = old.parent? m

section One
variable (h : d.WellFormed) (ht : d.isElement t)
include h ht

theorem WellFormed.exists_stands_before (hfirst : d.isAllocated first) (ns : List NodeId) :
    ∃ put, d.Stands t put (d.copy t true).2 ∧ put.parent? (d.copy t true).2 = d.parent? first ∧
      (∀ q < d.fresh, put.children q =
        (d.children q).flatMap fun c => if c = first then [(d.copy t true).2, c] else [c]) ∧
      (d.copy t true).1.wrapAt (d.copy t true).2 first ns =
        (put.tryPutAll (.lastIn (put.innermost (d.copy t true).2)) ns).adoptTopLevel
          [(d.copy t true).2] := by
  have hadds := h.adds_copy t true
  obtain ⟨hstands, hbare⟩ := h.stands_copy ht
  have hbeside {q : NodeId} (hq : d.parent? first ≠ some q) : (d.children q).flatMap
      (fun c => if c = first then [(d.copy t true).2, c] else [c]) = d.children q :=
    Spot.flatMap_beside (fun c hc => if_neg hc) fun hmem => hq (h.parent?_eq_some_iff.2 hmem)
  cases hp : d.parent? first with
  | none =>
    refine ⟨_, hstands, hbare, fun q hq => ?_, ?_⟩
    · rw [hbeside (by simp [hp]), hadds.grows.children_of_lt hq]
    · rw [wrapAt, hstands.parent?_of_lt _ (lt_fresh hfirst), hp]
      rfl
  | some p =>
    obtain ⟨hold, hleaf, hspot, hwrap⟩ := hadds.wrapAt_of_parent? h ns hp
    refine ⟨_, h.stands_put ht hspot hold hleaf, ?_, fun q hq => ?_, hwrap⟩
    · rw [parent?_put (hadds.of_mem _ List.mem_cons_self).2 hspot, if_pos rfl]
    · rw [(hadds.links_put h hspot hold).2 q hq]
      split
      · rename_i heq
        rw [heq]
        rfl
      · rename_i hne
        rw [hbeside]
        rw [hp]
        exact fun heq => hne (Option.some.inj heq).symm

theorem WellFormed.wrapAt_together (hnodup : ns.Nodup) (hfirst : first ∈ ns)
    (hns : ∀ n ∈ ns, d.isAllocated n ∧ ¬ d.isWithin first n) :
    d.WrappedTogether d t ((d.copy t true).1.wrapAt (d.copy t true).2 first ns) first ns
      (d.copy t true).2 := by
  obtain ⟨put, hstands, hplace, hlists, hwrap⟩ := h.exists_stands_before ht (hns first hfirst).1 ns
  obtain ⟨hd', hmore, hwraps, hparent, hparents, hchildren⟩ := hstands.fill h hnodup fun n hn => by
    refine ⟨(hns n hn).1, fun p hp hlies => (hns n hn).2 ?_⟩
    exact (isWithin_iff_of_parent? (hplace.symm.trans hp)).2 hlies
  have hnew := hstands.le_of_liesIn _ (.inl rfl)
  generalize (d.copy t true).1.wrapAt (d.copy t true).2 first ns = d' at hwrap ⊢
  generalize (d.copy t true).2 = w at *
  subst hwrap
  refine ⟨⟨hd'.of_same_slots rfl, hmore.data?, hmore.fresh_le⟩, ?_, hparent.trans hplace, fun q hq => ?_,
    hparents⟩
  · exact hwraps.of_same h (isAllocated_of_isElement ht) hd' (hd'.of_same_slots rfl) fun _ _ _ => ⟨rfl, rfl⟩
  · have hnot : w ∉ ns := fun hmem => Nat.not_lt_of_le hnew (lt_fresh (hns w hmem).1)
    refine (hchildren q hq).trans ?_
    rw [hlists q hq, List.filter_flatMap]
    refine List.flatMap_congr fun c _ => ?_
    by_cases hc : c = first
    · rw [if_pos hc, if_pos hc, hc]
      simp [hnot, hfirst]
    · rw [if_neg hc, if_neg hc]
      by_cases hmem : c ∈ ns <;> simp [hmem]

theorem WellFormed.wrapChildren_inside (hn : d.isAllocated n) :
    d.WrappedInside d t (d.wrapChildren t n) [n] fun _ => (d.copy t true).2 := by
  have hadds := h.adds_copy t true
  by_cases hleaf : d.isLeaf n
  · rw [h.wrapChildren_of_isLeaf t hleaf]
    have hsame := hadds.discard.grows
    refine ⟨⟨hadds.discard.wellFormed, hsame.toExtends.data?, hsame.fresh_le⟩, fun m hm hnot => ?_,
      fun q hq => ?_, fun m hm _ => hsame.parent?_of_lt hm⟩
    · exact absurd (List.mem_singleton.1 hm ▸ hleaf) hnot
    · rw [if_neg fun hboth => hboth.2 (List.mem_singleton.1 hboth.1 ▸ hleaf)]
      exact hsame.children_of_lt hq
  have hspot : (Spot.lastIn n).parent? (d.copy t true).1 = some n := rfl
  have hstands := h.stands_put ht hspot hn hleaf
  have hlists := (hadds.links_put h hspot hn).2
  have hplace := parent?_put (hadds.of_mem _ List.mem_cons_self).2 hspot (d.copy t true).2
  rw [if_pos rfl] at hplace
  rw [h.wrapChildren_of_not_isLeaf t hn hleaf]
  generalize (d.copy t true).1.put (.lastIn n) (d.copy t true).2 = put at *
  obtain ⟨hd', hmore, hwraps, -, hparents, hchildren⟩ :=
    hstands.fill h (h.nodup_children n) fun c hc => by
      refine ⟨h.isAllocated_child hc, fun p hp => ?_⟩
      obtain rfl := Option.some.inj (hplace.symm.trans hp)
      exact h.not_liesIn_of_parent? (h.parent?_eq_some_iff.2 hc)
  have hnew := hstands.le_of_liesIn _ (.inl rfl)
  refine ⟨⟨hd', hmore.data?, hmore.fresh_le⟩, fun m hm _ => List.mem_singleton.1 hm ▸ hwraps, fun q hq => ?_,
    fun m hm hfree => ?_⟩
  · rw [hchildren q hq, hlists q hq]
    by_cases heq : q = n
    · have hnot : (d.copy t true).2 ∉ d.children n := fun hmem =>
        Nat.not_lt_of_le hnew (lt_fresh (h.isAllocated_child hmem))
      subst heq
      rw [if_pos rfl, if_pos ⟨List.mem_cons_self, hleaf⟩, Spot.insertInto, List.filter_append]
      simp [hnot]
    · rw [if_neg heq, if_neg fun hboth => heq (List.mem_singleton.1 hboth.1), List.filter_eq_self]
      refine fun c hc => decide_eq_true fun hmem => heq (Option.some.inj ?_)
      rw [← h.parent?_eq_some_iff.2 hc, h.parent?_eq_some_iff.2 hmem]
  · exact hparents m hm fun hmem => hfree n List.mem_cons_self (h.parent?_eq_some_iff.2 hmem)

end One

/-! One wrapper after the other: none that is put somewhere later disturbs one that stands already, or the
template. -/

section Step
variable {e e' : Document} {wrapper : NodeId → NodeId} (h : d.WellFormed) (ht : d.isAllocated t)
  (hns : ∀ n ∈ ns, d.isAllocated n ∧ ¬ d.LiesIn n t) (hn : d.isAllocated n) (hnot : n ∉ ns)
include h ht hns hn hnot

theorem WrappedEach.concat (hd : d.WrappedEach d t e ns wrapper)
    (hone : e.WrappedTogether e t e' n [n] w) :
    d.WrappedEach d t e' (ns ++ [n]) (Function.update wrapper n w) := by
  have he := hd.wellFormed
  have hplace : e.parent? n = d.parent? n := hd.parent? n (lt_fresh hn) hnot
  have hwrapper (m : NodeId) (hm : m ∈ ns) : d.fresh ≤ wrapper m ∧ wrapper m < e.fresh :=
    ⟨(hd.wraps m hm).le_of_liesIn _ (.inl rfl), lt_fresh ((hd.wraps m hm).isAllocated ht)⟩
  have hne {m : NodeId} (hm : d.fresh ≤ m) : m ≠ n := Nat.ne_of_gt (Nat.lt_of_lt_of_le (lt_fresh hn) hm)
  have hnew : e.fresh ≤ w := hone.wraps.le_of_liesIn w (.inl rfl)
  have hlater (m : NodeId) (hm : m ∈ ns) : wrapper m ≠ w :=
    Nat.ne_of_lt (Nat.lt_of_lt_of_le (hwrapper m hm).2 hnew)
  have htemplate : d.Alike e t t := h.alike_of_same fun m hm => by
    have hlt := lt_fresh (hm.isAllocated ht)
    refine ⟨hd.data? m hlt, (hd.children m hlt).trans ?_⟩
    refine (List.map_congr_left fun c hc => if_neg fun hmem => (hns c hmem).2 ?_).trans (List.map_id' _)
    exact .trans (.inr (h.isWithin_of_mem_children hc)) hm
  have hold (m : NodeId) (hm : m ∈ ns) : Function.update wrapper n w m = wrapper m :=
    Function.update_of_ne (ne_of_mem_of_not_mem hm hnot) w wrapper
  refine ⟨hd.toRetains.trans hone.toRetains, fun m hm => ?_, fun m hm k hk heq => ?_, fun m hm => ?_,
    fun q hq => ?_, fun m hm hmem => ?_⟩
  · rcases List.mem_append.1 hm with hm | hm
    · rw [hold m hm]
      refine (hd.wraps m hm).of_same h ht he hone.wellFormed fun x hx hallocated => ?_
      have hlt := lt_fresh hallocated
      refine ⟨hone.data? x hlt, (hone.children x hlt).trans ?_⟩
      -- the children of a new node are new, or were put there and are not `n`
      have hmem : n ∉ e.children x := fun hmem => by
        have hp := hplace.symm.trans (he.parent?_eq_some_iff.2 hmem)
        exact Nat.not_lt_of_le hx (lt_fresh (h.isAllocated_parent hp))
      refine (List.flatMap_congr (g := fun c => [c]) fun c hc => ?_).trans (List.flatMap_singleton' _)
      have hcn : c ≠ n := fun heq => hmem (heq ▸ hc)
      rw [if_neg hcn, if_neg (List.mem_singleton.not.2 hcn)]
    · obtain rfl := List.mem_singleton.1 hm
      rw [Function.update_self]
      exact hone.wraps.of_alike h htemplate hd.fresh_le
  · rcases List.mem_append.1 hm with hmold | hmn <;> rcases List.mem_append.1 hk with hkold | hkn
    · rw [hold m hmold, hold k hkold] at heq
      exact hd.distinct m hmold k hkold heq
    · rw [hold m hmold, List.mem_singleton.1 hkn, Function.update_self] at heq
      exact absurd heq (hlater m hmold)
    · rw [hold k hkold, List.mem_singleton.1 hmn, Function.update_self] at heq
      exact absurd heq.symm (hlater k hkold)
    · rw [List.mem_singleton.1 hmn, List.mem_singleton.1 hkn]
  · rcases List.mem_append.1 hm with hm | hm
    · obtain ⟨hge, hlt⟩ := hwrapper m hm
      rw [hold m hm, hone.parent? _ hlt (List.mem_singleton.not.2 (hne hge))]
      exact hd.parent?_wrapper m hm
    · obtain rfl := List.mem_singleton.1 hm
      rw [Function.update_self]
      exact hone.parent?_wrapper.trans hplace
  · rw [hone.children q (Nat.lt_of_lt_of_le hq hd.fresh_le), hd.children q hq, List.flatMap_map,
      List.map_eq_flatMap]
    refine List.flatMap_congr fun c _ => ?_
    by_cases hc : c ∈ ns
    · have hcw := hne (hwrapper c hc).1
      rw [if_pos hc, if_pos (List.mem_append_left [n] hc), hold c hc, if_neg hcw,
        if_neg (List.mem_singleton.not.2 hcw)]
    · rw [if_neg hc]
      by_cases hcn : c = n
      · subst hcn
        rw [if_pos rfl, if_pos (List.mem_append_right ns List.mem_cons_self), Function.update_self]
      · rw [if_neg hcn, if_neg (List.mem_singleton.not.2 hcn), if_neg (by simp [hc, hcn])]
  · rw [List.mem_append, not_or] at hmem
    rw [hone.parent? m (Nat.lt_of_lt_of_le hm hd.fresh_le) hmem.2, hd.parent? m hm hmem.1]

theorem WrappedInside.concat (hd : d.WrappedInside d t e ns wrapper)
    (hone : e.WrappedInside e t e' [n] fun _ => w) :
    d.WrappedInside d t e' (ns ++ [n]) (Function.update wrapper n w) := by
  have he := hd.wellFormed
  have hlt {m : NodeId} (hm : m < d.fresh) : m < e.fresh := Nat.lt_of_lt_of_le hm hd.fresh_le
  have hleaf : e.isLeaf n = d.isLeaf n := isLeaf_congr (hd.data? n (lt_fresh hn))
  have hinside : e.children n = d.children n :=
    (hd.children n (lt_fresh hn)).trans (if_neg fun hboth => hnot hboth.1)
  have htemplate : d.Alike e t t := h.alike_of_same fun m hm => by
    have hlt := lt_fresh (hm.isAllocated ht)
    exact ⟨hd.data? m hlt, (hd.children m hlt).trans (if_neg fun hboth => (hns m hboth.1).2 hm)⟩
  have hold (m : NodeId) (hm : m ∈ ns) : Function.update wrapper n w m = wrapper m :=
    Function.update_of_ne (ne_of_mem_of_not_mem hm hnot) w wrapper
  refine ⟨hd.toRetains.trans hone.toRetains, fun m hm hnonleaf => ?_, fun q hq => ?_, fun m hm hfree => ?_⟩
  · rcases List.mem_append.1 hm with hm | hm
    · rw [hold m hm]
      refine (hd.wraps m hm hnonleaf).of_same h ht he hone.wellFormed fun x hx hallocated => ?_
      have hne : x ≠ n := Nat.ne_of_gt (Nat.lt_of_lt_of_le (lt_fresh hn) hx)
      refine ⟨hone.data? x (lt_fresh hallocated), (hone.children x (lt_fresh hallocated)).trans ?_⟩
      exact if_neg fun hboth => hne (List.mem_singleton.1 hboth.1)
    · obtain rfl := List.mem_singleton.1 hm
      rw [Function.update_self, ← hinside]
      exact (hone.wraps m List.mem_cons_self (by rwa [hleaf])).of_alike h htemplate hd.fresh_le
  · rw [hone.children q (hlt hq), hd.children q hq]
    by_cases hqn : q = n
    · subst hqn
      rw [hleaf, Function.update_self]
      simp [hnot]
    · simp [hqn]
  · obtain ⟨hfree, hlast⟩ := List.forall_mem_append.1 hfree
    have hsame := hd.parent? m hm hfree
    rw [hone.parent? m (hlt hm) fun k hk => ?_, hsame]
    rw [hsame]
    exact hlast k hk

end Step

/-- A wrapper for each node, one node after the other. -/
theorem exists_wrapper {P : Document → List NodeId → (NodeId → NodeId) → Prop}
    {f : Document → NodeId → Document} (hnodup : ns.Nodup) (hnone : P d [] id)
    (hstep : ∀ e ms n wrapper, (∀ m ∈ ms, m ∈ ns) → n ∈ ns → n ∉ ms → P e ms wrapper →
      ∃ w, P (f e n) (ms ++ [n]) (Function.update wrapper n w)) :
    ∃ wrapper, P (ns.foldl f d) ns wrapper := by
  induction ns using List.reverseRecOn with
  | nil => exact ⟨id, hnone⟩
  | append_singleton ns n ih =>
    obtain ⟨hnodup, -, hdisjoint⟩ := List.nodup_append.1 hnodup
    have hnot : n ∉ ns := fun hmem => hdisjoint n hmem n List.mem_cons_self rfl
    obtain ⟨wrapper, hd⟩ := ih hnodup fun e ms m wrapper hms hm =>
      hstep e ms m wrapper (fun k hk => List.mem_append_left [n] (hms k hk)) (List.mem_append_left [n] hm)
    obtain ⟨w, hw⟩ := hstep _ ns n wrapper (fun k hk => List.mem_append_left [n] hk)
      (List.mem_append_right ns List.mem_cons_self) hnot hd
    rw [List.foldl_append]
    exact ⟨_, hw⟩

section All
variable (h : d.WellFormed) (ht : d.isElement t) (hnodup : ns.Nodup)
  (hns : ∀ n ∈ ns, d.isAllocated n ∧ ¬ d.LiesIn n t)
include h ht hnodup hns

theorem WellFormed.wrapEach_each : ∃ wrapper, d.WrappedEach d t (d.wrapEach t ns) ns wrapper := by
  refine exists_wrapper (P := fun e ms wrapper => d.WrappedEach d t e ms wrapper) hnodup
    ⟨.refl h, nofun, nofun, nofun, fun q _ => ?_, fun _ _ _ => rfl⟩ fun e ms n wrapper hms hn hnot hd => ?_
  · simp
  have hn := (hns n hn).1
  have ht' := (isElement_congr (hd.data? t (lt_fresh (isAllocated_of_isElement ht)))).trans ht
  have hone := hd.wellFormed.wrapAt_together ht' (List.nodup_singleton n) List.mem_cons_self fun m hm => by
    obtain rfl := List.mem_singleton.1 hm
    exact ⟨(isAllocated_congr (hd.data? m (lt_fresh hn))).2 hn, hd.wellFormed.not_isWithin_self m⟩
  exact ⟨_, hd.concat h (isAllocated_of_isElement ht) (fun m hm => hns m (hms m hm)) hn hnot hone⟩

theorem WellFormed.wrapInside_inside :
    ∃ wrapper, d.WrappedInside d t (d.wrapInside t ns) ns wrapper := by
  refine exists_wrapper (P := fun e ms wrapper => d.WrappedInside d t e ms wrapper) hnodup
    ⟨.refl h, nofun, fun q _ => ?_, fun _ _ _ => rfl⟩ fun e ms n wrapper hms hn hnot hd => ?_
  · exact (if_neg fun hboth => List.not_mem_nil hboth.1).symm
  have hn := (hns n hn).1
  have ht' := (isElement_congr (hd.data? t (lt_fresh (isAllocated_of_isElement ht)))).trans ht
  have hone := hd.wellFormed.wrapChildren_inside ht' ((isAllocated_congr (hd.data? n (lt_fresh hn))).2 hn)
  exact ⟨_, hd.concat h (isAllocated_of_isElement ht) (fun m hm => hns m (hms m hm)) hn hnot hone⟩

end All

end DomQuery.Document
