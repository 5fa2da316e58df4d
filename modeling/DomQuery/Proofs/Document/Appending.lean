import DomQuery.Proofs.Document.Counting
import DomQuery.Proofs.Document.Distribution
import DomQuery.Proofs.Document.Refilling

/-!
Appending to several targets. The children of a target are those that it had, and then its row: the
originals at the first target, and at each other one copies of them that are made of new nodes. No other node
gets or loses a child, except the one that the originals stood in.
-/
namespace DomQuery.Document
variable {d d' d'' read : Document} {n m p q t first : NodeId} {ns originals targets rest nodes : List NodeId}

theorem place_append (d : Document) (t : NodeId) (ns : List NodeId) :
    (d.place .append t ns).1 = d.tryPutAll (.lastIn t) ns := by
  have hfrom : (d.placeFrom .append t (.lastIn t) ns).1 = d.tryPutAll (.lastIn t) ns := by
    induction ns generalizing d with
    | nil => rfl
    | cons n ns ih =>
      rw [placeFrom, tryPutAll, List.foldl_cons, tryPut]
      split
      · exact ih d
      · exact ih (d.put (.lastIn t) n)
  exact hfrom

/-! Copies. -/

/-- Behind the children of each target there are copies of the originals now. -/
structure Appends (d d' : Document) (originals targets : List NodeId) : Prop where
  wellFormed : d'.WellFormed
  toExtends : d.Extends d'
  parent? : ∀ m < d.fresh, d'.parent? m = d.parent? m
  children : ∀ q < d.fresh, q ∉ targets → d'.children q = d.children q
  rows : ∀ t ∈ targets, ∃ row, d'.children t = d.children t ++ row ∧
    List.Forall₂ (d.Alike d') originals row ∧ ∀ r ∈ row, ∀ m, d'.LiesIn m r → d.fresh ≤ m

theorem WellFormed.appends_one (h : d.WellFormed) (ht : d.isAllocated t) (hleaf : ¬ d.isLeaf t)
    (horiginals : ∀ n ∈ originals, d.isAllocated n) :
    d.Appends ((d.copyAll originals).1.place .append t (d.copyAll originals).2).1 originals [t] := by
  have hadds := h.adds_copyAll originals
  obtain ⟨halike, hnodup⟩ := h.copyAll_alike horiginals
  obtain ⟨-, -, hbare⟩ := h.copyAll_counted horiginals
  rw [place_append]
  generalize d.copyAll originals = copied at hadds halike hnodup hbare ⊢
  obtain ⟨read, copies⟩ := copied
  dsimp only at hadds halike hnodup hbare ⊢
  have hread := hadds.wellFormed
  have hgrows := hadds.grows
  have hmem (c : NodeId) (hc : c ∈ copies) := (hadds.of_mem c hc).2
  have htread := hgrows.toExtends.isAllocated ht
  have hmore := extends_tryPutAll (.lastIn t) copies read
  obtain ⟨hparents, hlists, -⟩ := hread.links_tryPutAll htread (by rwa [hgrows.toExtends.isLeaf_iff ht])
    hnodup hmem fun c hc hlies =>
      Nat.not_lt_of_le (hgrows.le_of_liesIn hlies (hadds.of_mem c hc).1) (lt_fresh ht)
  have hd' := hread.tryPutAll hmem (show read.Has (.lastIn t) from htread)
  have hlist (m : NodeId) : (read.tryPutAll (.lastIn t) copies).children m =
      read.children m ++ if m = t then copies else [] := by
    have hfree : (read.children m).filter (· ∉ copies) = read.children m := by
      refine List.filter_eq_self.2 fun c hc => decide_eq_true fun hcopy => ?_
      cases (hbare c hcopy).symm.trans (hread.parent?_eq_some_iff.2 hc)
    rw [hlists, hfree]
  generalize read.tryPutAll (.lastIn t) copies = d' at *
  have hbelow {c m : NodeId} (hc : c ∈ copies) (hm : read.LiesIn m c) : d.fresh ≤ m :=
    hgrows.le_of_liesIn hm (hadds.of_mem c hc).1
  obtain ⟨halike, hsame⟩ := h.alike_row_of_same hread hd' halike fun c hc m hm => by
    have hne : m ≠ t := Nat.ne_of_gt (Nat.lt_of_lt_of_le (lt_fresh ht) (hbelow hc hm))
    refine ⟨hmore.data? m (lt_fresh (hm.isAllocated (hmem c hc))), ?_⟩
    rw [hlist, if_neg hne, List.append_nil]
  refine ⟨hd', hgrows.toExtends.trans hmore, fun m hm => ?_, fun q hq hnot => ?_, fun u hu => ?_⟩
  · rw [hparents, if_neg fun hmem => Nat.not_lt_of_le (hadds.of_mem m hmem).1 hm, hgrows.parent?_of_lt hm]
  · rw [hlist, if_neg (List.mem_singleton.not.1 hnot), List.append_nil, hgrows.children_of_lt hq]
  · obtain rfl := List.mem_singleton.1 hu
    refine ⟨copies, ?_, halike, fun c hc m hm => hbelow hc (hsame c hc m hm)⟩
    rw [hlist, if_pos rfl, hgrows.children_of_lt (lt_fresh ht)]

theorem Appends.cons (hone : d.Appends d' originals [t]) (hrest : d'.Appends d'' originals rest)
    (h : d.WellFormed) (ht : t ∉ rest) (htargets : ∀ u ∈ t :: rest, u < d.fresh)
    (horiginals : ∀ n ∈ originals, d.isAllocated n ∧ ¬ d.LiesIn t n) :
    d.Appends d'' originals (t :: rest) := by
  have hle := hone.toExtends.fresh_le
  have hlt {m : NodeId} (hm : m < d.fresh) : m < d'.fresh := Nat.lt_of_lt_of_le hm hle
  obtain ⟨hold, hlater⟩ := List.forall_mem_cons.1 htargets
  have hne {u : NodeId} (hu : u ∈ rest) : u ∉ [t] :=
    List.mem_singleton.not.2 fun heq => ht (heq ▸ hu)
  refine ⟨hrest.wellFormed, hone.toExtends.trans hrest.toExtends, fun m hm => ?_, fun q hq hnot => ?_,
    List.forall_mem_cons.2 ⟨?_, fun u hu => ?_⟩⟩
  · rw [hrest.parent? m (hlt hm), hone.parent? m hm]
  · rw [List.mem_cons, not_or] at hnot
    rw [hrest.children q (hlt hq) hnot.2, hone.children q hq (List.mem_singleton.not.2 hnot.1)]
  · obtain ⟨row, hchildren, halike, hnew⟩ := hone.rows t List.mem_cons_self
    obtain ⟨halike, hsame⟩ := h.alike_row_of_same hone.wellFormed hrest.wellFormed halike fun r hr m hm => by
      have hrmem : r ∈ d'.children t := hchildren ▸ List.mem_append_right _ hr
      have hm' := lt_fresh (hm.isAllocated (hone.wellFormed.isAllocated_child hrmem))
      refine ⟨hrest.toExtends.data? m hm', hrest.children m hm' fun hmem => ?_⟩
      exact Nat.not_lt_of_le (hnew r hr m hm) (hlater m hmem)
    exact ⟨row, (hrest.children t (hlt hold) ht).trans hchildren, halike,
      fun r hr m hm => hnew r hr m (hsame r hr m hm)⟩
  · obtain ⟨row, hchildren, halike, hnew⟩ := hrest.rows u hu
    rw [hone.children u (hlater u hu) (hne hu)] at hchildren
    refine ⟨row, hchildren, h.alike_trans_all (List.forall₂_same.2 fun n hn => ?_) halike,
      fun r hr m hm => hle.trans (hnew r hr m hm)⟩
    obtain ⟨hn, hout⟩ := horiginals n hn
    refine h.alike_of_same fun m hm => ?_
    have hm' := lt_fresh (hm.isAllocated hn)
    refine ⟨hone.toExtends.data? m hm', hone.children m hm' fun hmem => hout ?_⟩
    exact List.mem_singleton.1 hmem ▸ hm

theorem WellFormed.appends_placeCopies (h : d.WellFormed) (hnodup : targets.Nodup)
    (htargets : ∀ t ∈ targets, d.isAllocated t ∧ ¬ d.isLeaf t)
    (horiginals : ∀ n ∈ originals, d.isAllocated n ∧ ∀ t ∈ targets, ¬ d.LiesIn t n) :
    d.Appends (d.placeCopies .append originals targets).1 originals targets := by
  induction targets generalizing d with
  | nil => exact ⟨h, .refl d, fun _ _ => rfl, fun _ _ _ => rfl, nofun⟩
  | cons t rest ih =>
    obtain ⟨ht, hnodup⟩ := List.nodup_cons.1 hnodup
    obtain ⟨⟨htold, hleaf⟩, hrest⟩ := List.forall_mem_cons.1 htargets
    have hone := h.appends_one htold hleaf fun n hn => (horiginals n hn).1
    rw [Document.placeCopies]
    refine hone.cons (ih hone.wellFormed hnodup (fun u hu => ?_) fun n hn => ⟨?_, fun u hu hlies => ?_⟩) h ht
      (fun u hu => lt_fresh (htargets u hu).1) fun n hn => ⟨(horiginals n hn).1, ?_⟩
    · obtain ⟨hu, huleaf⟩ := hrest u hu
      exact ⟨hone.toExtends.isAllocated hu, by rwa [hone.toExtends.isLeaf_iff hu]⟩
    · exact hone.toExtends.isAllocated (horiginals n hn).1
    · refine (horiginals n hn).2 u (List.mem_cons_of_mem t hu) ?_
      exact (h.liesIn_iff_of_lt hone.parent? (lt_fresh (hrest u hu).1)).1 hlies
    · exact (horiginals n hn).2 t List.mem_cons_self

/-! What was read. -/

/-- The nodes that were read have gone to the first target, and copies of them to the other ones. -/
structure Deals (read d' : Document) (nodes : List NodeId) (first : NodeId) (rest : List NodeId) : Prop where
  wellFormed : d'.WellFormed
  toExtends : read.Extends d'
  parent? : ∀ m < read.fresh, m ∉ nodes → d'.parent? m = read.parent? m
  children : ∀ q < read.fresh, q ∉ first :: rest → d'.children q = (read.children q).filter (· ∉ nodes)
  children_first : d'.children first = read.children first ++ nodes
  rows : ∀ t ∈ rest, ∃ row, d'.children t = read.children t ++ row ∧
    List.Forall₂ (read.Alike d') nodes row ∧ ∀ r ∈ row, ∀ m, d'.LiesIn m r → read.fresh ≤ m

section Read
variable (hadds : d.Adds read nodes) (hscratch : ∀ n ∈ nodes, read.parent? n = some d.fresh)
include hadds hscratch

theorem Adds.filter_children (hq : q ≠ d.fresh) : (read.children q).filter (· ∉ nodes) = read.children q := by
  refine List.filter_eq_self.2 fun c hc => decide_eq_true fun hmem => hq (Option.some.inj ?_)
  rw [← hadds.wellFormed.parent?_eq_some_iff.2 hc, hscratch c hmem]

theorem Adds.ne_scratch {o : NodeId} (ho : o ∈ nodes) (hm : read.LiesIn m o) : m ≠ d.fresh :=
  fun heq => hadds.wellFormed.not_liesIn_of_parent? (hscratch o ho) (heq ▸ hm)

theorem Adds.deals (hnodup : (first :: rest).Nodup) (hnodes : nodes.Nodup)
    (htargets : ∀ t ∈ first :: rest, d.isAllocated t ∧ ¬ d.isLeaf t) :
    read.Deals (read.distribute .append (first :: rest) nodes).1 nodes first rest := by
  obtain ⟨hnot, hnodup⟩ := List.nodup_cons.1 hnodup
  have hread := hadds.wellFormed
  have hgrows := hadds.grows
  have hmem (o : NodeId) (ho : o ∈ nodes) := (hadds.of_mem o ho).2
  have htarget (t : NodeId) (ht : t ∈ first :: rest) :
      t < d.fresh ∧ read.isAllocated t ∧ ¬ read.isLeaf t ∧ ∀ o ∈ nodes, ¬ read.LiesIn t o := by
    obtain ⟨ht, hleaf⟩ := htargets t ht
    refine ⟨lt_fresh ht, hgrows.toExtends.isAllocated ht, by rwa [hgrows.toExtends.isLeaf_iff ht],
      fun o ho hlies => ?_⟩
    exact Nat.not_lt_of_le (hgrows.le_of_liesIn hlies (hadds.of_mem o ho).1) (lt_fresh ht)
  have hold {t : NodeId} (ht : t < d.fresh) : t ∉ nodes ∧ t ≠ d.fresh :=
    ⟨fun hmem => Nat.not_lt_of_le (hadds.of_mem t hmem).1 ht, Nat.ne_of_lt ht⟩
  obtain ⟨hfirst, hallocated, hleaf, hout⟩ := htarget first List.mem_cons_self
  obtain ⟨hparents, hlists, -⟩ := hread.links_tryPutAll hallocated hleaf hnodes hmem hout
  have hone := hread.tryPutAll hmem (show read.Has (.lastIn first) from hallocated)
  have hmore := extends_tryPutAll (.lastIn first) nodes read
  have hunmoved (x : NodeId) (hx : x ∉ nodes) := (hparents x).trans (if_neg hx)
  rw [distribute, ← place_append] at *
  simp only [Place.isBeside, Bool.false_eq_true, if_false]
  generalize read.place .append first nodes = placed at *
  obtain ⟨d₁, row⟩ := placed
  dsimp only at hparents hlists hone hmore hunmoved ⊢
  have hrest : d₁.Appends (d₁.placeCopies .append nodes rest).1 nodes rest := by
    refine hone.appends_placeCopies hnodup (fun t ht => ?_) fun o ho =>
      ⟨hmore.isAllocated (hmem o ho), fun t ht hlies => ?_⟩
    · obtain ⟨-, ht, hleaf, -⟩ := htarget t (List.mem_cons_of_mem first ht)
      exact ⟨hmore.isAllocated ht, by rwa [hmore.isLeaf_iff ht]⟩
    · obtain ⟨-, -, -, hout⟩ := htarget t (List.mem_cons_of_mem first ht)
      exact hout o ho (liesIn_of_unmoved hunmoved hout hlies)
  generalize d₁.placeCopies .append nodes rest = copied at hrest
  obtain ⟨d₂, more⟩ := copied
  dsimp only at hrest ⊢
  have hlt {m : NodeId} (hm : m < read.fresh) : m < d₁.fresh := Nat.lt_of_lt_of_le hm hmore.fresh_le
  refine ⟨hrest.wellFormed, hmore.trans hrest.toExtends, fun m hm hmoved => ?_, fun q hq hfree => ?_, ?_,
    fun t ht => ?_⟩
  · rw [hrest.parent? m (hlt hm), hunmoved m hmoved]
  · rw [List.mem_cons, not_or] at hfree
    rw [hrest.children q (hlt hq) hfree.2, hlists, if_neg hfree.1, List.append_nil]
  · rw [hrest.children first (hlt (lt_fresh hallocated)) hnot, hlists, if_pos rfl,
      hadds.filter_children hscratch (hold hfirst).2]
  · obtain ⟨row, hchildren, halike, hnew⟩ := hrest.rows t ht
    have hne : t ≠ first := fun heq => hnot (heq ▸ ht)
    obtain ⟨htold, -⟩ := htarget t (List.mem_cons_of_mem first ht)
    rw [hlists, if_neg hne, List.append_nil, hadds.filter_children hscratch (hold htold).2] at hchildren
    refine ⟨row, hchildren, hread.alike_trans_all (List.forall₂_same.2 fun o ho => ?_) halike,
      fun r hr m hm => hmore.fresh_le.trans (hnew r hr m hm)⟩
    refine hread.alike_of_same fun m hm => ⟨hmore.data? m (lt_fresh (hm.isAllocated (hmem o ho))), ?_⟩
    -- neither the fragment nor the target lies in an original
    have htarget : m ≠ first := fun heq => hout o ho (heq ▸ hm)
    rw [hlists, if_neg htarget, List.append_nil,
      hadds.filter_children hscratch (hadds.ne_scratch hscratch ho hm)]

/-- What was read and is not in the forest: the fragment, and what was never placed. -/
def LeftOver (d read : Document) (nodes : List NodeId) (m : NodeId) : Prop :=
  d.fresh ≤ m ∧ m < read.fresh ∧ ∀ o ∈ nodes, ¬ read.LiesIn m o

theorem Adds.sameBut_dealt (hdeals : read.Deals d' nodes first rest)
    (htargets : ∀ t ∈ first :: rest, t < d.fresh) :
    d'.SameBut (d.LeftOver read nodes) (d'.discardScratch (read.scratch? nodes)) := by
  have hread := hadds.wellFormed
  by_cases hne : nodes = []
  · subst hne
    exact ⟨hdeals.wellFormed, rfl, fun _ _ => rfl, fun _ _ => rfl, fun _ _ => rfl⟩
  have hcontainer := hadds.isAllocated_scratch hscratch hne
  have hself : d.LeftOver read nodes d.fresh :=
    ⟨Nat.le_refl _, lt_fresh hcontainer, fun o ho hlies => hadds.ne_scratch hscratch ho hlies rfl⟩
  -- the set is closed upwards and downwards while the forest stands outside
  have hup {a b : NodeId} (hab : read.parent? a = some b) (ha : d.LeftOver read nodes a) :
      d.LeftOver read nodes b := by
    obtain ⟨hge, -, hout⟩ := ha
    refine ⟨(hadds.grows.apart a b hab).1 hge, lt_fresh (hread.isAllocated_parent hab), fun o ho hlies => ?_⟩
    exact hout o ho (.trans (.inr (isWithin_of_parent? hab)) hlies)
  have hdown {a b : NodeId} (hab : read.parent? a = some b) (ha : a ∉ nodes)
      (hb : d.LeftOver read nodes b) : d.LeftOver read nodes a := by
    obtain ⟨hge, -, hout⟩ := hb
    refine ⟨(hadds.grows.apart a b hab).2 hge, lt_fresh (isAllocated_of_parent? hab), fun o ho hlies => ?_⟩
    rcases hlies with rfl | hwithin
    · exact ha ho
    · exact hout o ho ((isWithin_iff_of_parent? hab).1 hwithin)
  rw [discardScratch_of_ne_nil hscratch hne]
  refine hdeals.wellFormed.sameBut_discard (hdeals.toExtends.isAllocated hcontainer) (fun m hm => ?_)
    fun p hp => ?_
  · induction liesIn_iff.1 hm using Relation.ReflTransGen.head_induction_on with
    | refl => exact hself
    | @head a b hstep hreach ih =>
      have hb := ih (liesIn_iff.2 hreach)
      have hmem := hdeals.wellFormed.parent?_eq_some_iff.1 hstep
      rw [hdeals.children b hb.2.1 fun ht => Nat.not_lt_of_le hb.1 (htargets b ht), List.mem_filter] at hmem
      exact hdown (hread.parent?_eq_some_iff.2 hmem.1) (of_decide_eq_true hmem.2) hb
  · have hnot : d.fresh ∉ nodes := fun hmem => hself.2.2 _ hmem (.inl rfl)
    exact hup ((hdeals.parent? _ (lt_fresh hcontainer) hnot).symm.trans hp) hself

section Dealt
variable (hdeals : read.Deals d' nodes first rest) (htargets : ∀ t ∈ first :: rest, t < d.fresh)
  (hsame : d'.SameBut (d.LeftOver read nodes) d'')
include hdeals hsame

theorem Adds.sameAround_dealt : d.SameAround d'' (first :: rest) := by
  have hgrows := hadds.grows
  have hlt {m : NodeId} (hm : m < d.fresh) : m < read.fresh := Nat.lt_of_lt_of_le hm hgrows.fresh_le
  have hout {m : NodeId} (hm : m < d.fresh) : ¬ d.LeftOver read nodes m :=
    fun hleft => Nat.not_lt_of_le hleft.1 hm
  have hnew {m : NodeId} (hm : m < d.fresh) : m ∉ nodes :=
    fun hmem => Nat.not_lt_of_le (hadds.of_mem m hmem).1 hm
  refine ⟨hsame.wellFormed, ?_, fun m hm => ?_, fun m hm => ?_, fun q hq hfree => ?_⟩
  · rw [hsame.fresh]
    exact hgrows.fresh_le.trans hdeals.toExtends.fresh_le
  · rw [hsame.data? m (hout hm), hdeals.toExtends.data? m (hlt hm), hgrows.toExtends.data? m hm]
  · rw [hsame.parent? m (hout hm), hdeals.parent? m (hlt hm) (hnew hm), hgrows.parent?_of_lt hm]
  · rw [hsame.children q (hout hq), hdeals.children q (hlt hq) hfree,
      hadds.filter_children hscratch (Nat.ne_of_lt hq), hgrows.children_of_lt hq]

include htargets in
theorem Adds.alike_original {o : NodeId} (ho : o ∈ nodes) : read.Alike d'' o o := by
  refine hadds.wellFormed.alike_of_same fun m hm => ?_
  have hleft : ¬ d.LeftOver read nodes m := fun hleft => hleft.2.2 o ho hm
  have hge := hadds.grows.le_of_liesIn hm (hadds.of_mem o ho).1
  have hlt := lt_fresh (hm.isAllocated (hadds.of_mem o ho).2)
  rw [hsame.data? m hleft, hsame.children m hleft, hdeals.toExtends.data? m hlt,
    hdeals.children m hlt fun ht => Nat.not_lt_of_le hge (htargets m ht),
    hadds.filter_children hscratch (hadds.ne_scratch hscratch ho hm)]
  exact ⟨rfl, rfl⟩

omit hscratch in
include htargets in
theorem Adds.alike_copies (ht : t ∈ rest) (hempty : read.children t = []) :
    List.Forall₂ (read.Alike d'') nodes (d''.children t) ∧
      ∀ r ∈ d''.children t, ∀ m, d''.LiesIn m r → read.fresh ≤ m := by
  have hold := htargets t (List.mem_cons_of_mem first ht)
  obtain ⟨row, hchildren, halike, hfresh⟩ := hdeals.rows t ht
  rw [hempty, List.nil_append] at hchildren
  rw [hsame.children t fun hleft => Nat.not_lt_of_le hleft.1 hold, hchildren]
  obtain ⟨halike, hbelow⟩ := hadds.wellFormed.alike_row_of_same hdeals.wellFormed hsame.wellFormed halike
    fun r hr m hm => by
      have hout : ¬ d.LeftOver read nodes m := fun hleft => Nat.not_lt_of_le (hfresh r hr m hm) hleft.2.1
      exact ⟨hsame.data? m hout, hsame.children m hout⟩
  exact ⟨halike, fun r hr m hm => hfresh r hr m (hbelow r hr m hm)⟩

end Dealt
end Read

/-- Each target holds the same forest: the first one the nodes that were read, and each other one new nodes
like them. -/
structure Filled (read d' : Document) (nodes targets : List NodeId) : Prop where
  alike : ∀ t ∈ targets, List.Forall₂ (read.Alike d') nodes (d'.children t)
  originals : ∀ t ∈ targets.head?, d'.children t = nodes
  copies : ∀ t ∈ targets.tail, ∀ m, d'.isWithin m t → read.fresh ≤ m

theorem Adds.filled_cons (hadds : d.Adds read nodes) (hscratch : ∀ n ∈ nodes, read.parent? n = some d.fresh)
    (hnodup : (first :: rest).Nodup) (hnodes : nodes.Nodup)
    (htargets : ∀ t ∈ first :: rest, d.isAllocated t ∧ ¬ d.isLeaf t ∧ d.children t = []) :
    let d' := (read.distribute .append (first :: rest) nodes).1.discardScratch (read.scratch? nodes)
    d.SameAround d' (first :: rest) ∧ read.Filled d' nodes (first :: rest) := by
  intro d'
  have hold (t : NodeId) (ht : t ∈ first :: rest) : t < d.fresh := lt_fresh (htargets t ht).1
  have hempty (t : NodeId) (ht : t ∈ first :: rest) : read.children t = [] :=
    (hadds.grows.children_of_lt (hold t ht)).trans (htargets t ht).2.2
  have hdeals := hadds.deals hscratch hnodup hnodes fun t ht => ⟨(htargets t ht).1, (htargets t ht).2.1⟩
  have hsame : (read.distribute .append (first :: rest) nodes).1.SameBut (d.LeftOver read nodes) d' :=
    hadds.sameBut_dealt hscratch hdeals hold
  have hfirst : d'.children first = nodes := by
    have hmem : first ∈ first :: rest := List.mem_cons_self
    rw [hsame.children first fun hleft => Nat.not_lt_of_le hleft.1 (hold first hmem), hdeals.children_first,
      hempty first hmem, List.nil_append]
  have hrow (t : NodeId) (ht : t ∈ rest) :=
    hadds.alike_copies hdeals hold hsame ht (hempty t (List.mem_cons_of_mem first ht))
  refine ⟨hadds.sameAround_dealt hscratch hdeals hsame,
    ⟨List.forall_mem_cons.2 ⟨?_, fun t ht => (hrow t ht).1⟩, fun t ht => ?_, fun t ht m hm => ?_⟩⟩
  · rw [hfirst]
    exact List.forall₂_same.2 fun o ho => hadds.alike_original hscratch hdeals hold hsame ho
  · obtain rfl := Option.some.inj ht
    exact hfirst
  · obtain ⟨r, hr, hlies⟩ := isWithin_iff_exists_liesIn.1 hm
    exact (hrow t ht).2 r (hsame.wellFormed.parent?_eq_some_iff.1 hr) m hlies

theorem Adds.filled (hadds : d.Adds read nodes) (hscratch : ∀ n ∈ nodes, read.parent? n = some d.fresh)
    (hnodup : targets.Nodup) (hnodes : nodes.Nodup)
    (htargets : ∀ t ∈ targets, d.isAllocated t ∧ ¬ d.isLeaf t ∧ d.children t = []) :
    let d' := (read.distribute .append targets nodes).1.discardScratch (read.scratch? nodes)
    d.SameAround d' targets ∧ read.Filled d' nodes targets := by
  cases targets with
  | cons first rest => exact hadds.filled_cons hscratch hnodup hnodes htargets
  | nil =>
    refine ⟨?_, ⟨nofun, nofun, nofun⟩⟩
    have hgrows := hadds.grows
    have hlt {m : NodeId} (hm : m < d.fresh) : m < read.fresh := Nat.lt_of_lt_of_le hm hgrows.fresh_le
    have hsame : read.SameBut (fun m => d.fresh ≤ m ∧ m < read.fresh)
        (read.discardScratch (read.scratch? nodes)) := by
      by_cases hne : nodes = []
      · subst hne
        exact ⟨hadds.wellFormed, rfl, fun _ _ => rfl, fun _ _ => rfl, fun _ _ => rfl⟩
      · exact (hadds.sameBut_discardScratch hscratch hne (.refl hadds.wellFormed)).1
    refine ⟨hsame.wellFormed, hsame.fresh.symm ▸ hgrows.fresh_le, fun m hm => ?_, fun m hm => ?_,
      fun q hq _ => ?_⟩
    · exact (hsame.data? m (not_read_of_lt hm)).trans (hgrows.toExtends.data? m hm)
    · exact (hsame.parent? m (not_read_of_lt hm)).trans (hgrows.parent?_of_lt hm)
    · exact (hsame.children q (not_read_of_lt hq)).trans (hgrows.children_of_lt hq)

end DomQuery.Document
