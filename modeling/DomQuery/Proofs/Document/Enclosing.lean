import DomQuery.Proofs.Document.Order
import DomQuery.Proofs.Document.Wrapping

/-!
Enclosing. Some children of a node that stand together go into a new tree, and that tree stands where
they stood. Among the nodes that were there before, all that is asked about ancestors and about the order
in the tree has the same answer afterwards.
-/
namespace DomQuery.Document
variable {d d' : Document} {n m p q u v x y wrapper inner : NodeId} {spot : Spot}
  {ns before inside after xs ys : List NodeId}

/-! Elements. -/

theorem isElement_innermost (h : d.isElement n) : d.isElement (d.innermost n) := by
  have hwithin (bound : Nat) (n : NodeId) (h : d.isElement n) :
      d.isElement (d.innermostWithin bound n) := by
    induction bound generalizing n with
    | zero => exact h
    | succ bound ih =>
      rw [innermostWithin]
      split
      · rename_i child hchild
        have hmem := List.mem_of_mem_head? (Option.mem_def.2 hchild)
        exact ih child (List.of_mem_filter hmem)
      · exact h
  exact hwithin d.slots.size n h

theorem WellFormed.isElement_copy (h : d.WellFormed) (hn : d.isElement n) :
    (d.copy n true).1.isElement (d.copy n true).2 := by
  obtain ⟨bound, hbound⟩ := Nat.exists_eq_add_one.2
    (Nat.zero_lt_of_lt (lt_fresh (isAllocated_of_isElement hn)))
  have htidy := h.tidy_treeAt n
  rw [treeAt, ← fresh, hbound, treeWithin] at htidy
  rw [copy, if_pos rfl, plant, treeAt, ← fresh, hbound, treeWithin]
  cases htidy with
  | node hleaf hchildren =>
    have hplanted := planted_plantAllUnder
      (d.add { kind := (d.kind? n).getD .fragment, ns := d.ns n, parent := none }) d.fresh hchildren
    have hroot := hplanted.node? d.fresh (by simp)
    rw [node?_add, if_pos rfl] at hroot
    rw [plantUnder, isElement, element?, kind?, node?_modify, if_pos rfl, hroot]
    cases hkind : d.kind? n <;> simp_all [isElement, element?]

/-! Several nodes at the end of a parent. -/

theorem pair_sublist_append : [u, v].Sublist (xs ++ ys) →
    [u, v].Sublist xs ∨ (u ∈ xs ∧ v ∈ ys) ∨ [u, v].Sublist ys := by
  rw [List.sublist_append_iff]
  rintro ⟨l, r, heq, hl, hr⟩
  match l, heq with
  | [], heq => exact .inr (.inr (heq ▸ hr))
  | [a], heq =>
    obtain ⟨rfl, rfl⟩ : u = a ∧ [v] = r := by simpa using heq
    exact .inr (.inl ⟨List.singleton_sublist.1 hl, List.singleton_sublist.1 hr⟩)
  | a :: b :: l, heq =>
    obtain ⟨rfl, rfl, rfl, rfl⟩ : u = a ∧ v = b ∧ l = [] ∧ r = [] := by simpa using heq
    exact .inl hl

theorem pair_sublist_replace (w : NodeId) (h : [u, v].Sublist (before ++ inside ++ after)) :
    [u, v].Sublist inside ∨ [u, v].Sublist (before ++ w :: after) ∨
      (v ∈ inside ∧ [u, w].Sublist (before ++ w :: after)) ∨
      (u ∈ inside ∧ [w, v].Sublist (before ++ w :: after)) := by
  have hleft {z : NodeId} (hu : u ∈ before) (hz : z ∈ w :: after) :
      [u, z].Sublist (before ++ w :: after) :=
    List.Sublist.append (List.singleton_sublist.2 hu) (List.singleton_sublist.2 hz)
  have hright {zs : List NodeId} (hzs : zs.Sublist (w :: after)) : zs.Sublist (before ++ w :: after) :=
    hzs.trans (List.sublist_append_right ..)
  rcases pair_sublist_append h with h | ⟨hu, hv⟩ | h
  · rcases pair_sublist_append h with h | ⟨hu, hv⟩ | h
    · exact .inr (.inl (h.trans (List.sublist_append_left ..)))
    · exact .inr (.inr (.inl ⟨hv, hleft hu List.mem_cons_self⟩))
    · exact .inl h
  · rcases List.mem_append.1 hu with hu | hu
    · exact .inr (.inl (hleft hu (List.mem_cons_of_mem w hv)))
    · exact .inr (.inr (.inr ⟨hu, hright ((List.singleton_sublist.2 hv).cons_cons w)⟩))
  · exact .inr (.inl (hright (h.cons w)))

theorem WellFormed.links_tryPutAll (h : d.WellFormed) (hq : d.isAllocated q) (hleaf : ¬ d.isLeaf q)
    (hns : ns.Nodup) (hallocated : ∀ n ∈ ns, d.isAllocated n) (hout : ∀ n ∈ ns, ¬ d.LiesIn q n) :
    (∀ m, (d.tryPutAll (.lastIn q) ns).parent? m = if m ∈ ns then some q else d.parent? m) ∧
      (∀ m, (d.tryPutAll (.lastIn q) ns).children m =
        (d.children m).filter (· ∉ ns) ++ if m = q then ns else []) ∧
      ∀ m, (d.tryPutAll (.lastIn q) ns).LiesIn q m ↔ d.LiesIn q m := by
  induction ns generalizing d with
  | nil => simp [Document.tryPutAll]
  | cons n ns ih =>
    obtain ⟨hn, hrest⟩ := List.forall_mem_cons.1 hallocated
    obtain ⟨hfree, houts⟩ := List.forall_mem_cons.1 hout
    obtain ⟨hnot, hnodup⟩ := List.nodup_cons.1 hns
    have haccepted : d.refusal? (.lastIn q) n = none :=
      refusal?_eq_none_iff.2 ⟨q, rfl, .inr (accepts_iff.2 ⟨hleaf, hfree⟩)⟩
    have hmore := extends_put d (.lastIn q) n
    have hparent := parent?_put hn (show (Spot.lastIn q).parent? d = some q from rfl)
    have hnext : ¬ (Spot.lastIn q).isNextTo n := Bool.false_ne_true
    have hchildren (m : NodeId) : (d.put (.lastIn q) n).children m =
        if m = q then (d.children q).erase n ++ [n] else (d.children m).erase n :=
      h.children_put hnext rfl hq m
    have hstep : d.tryPutAll (.lastIn q) (n :: ns) = (d.put (.lastIn q) n).tryPutAll (.lastIn q) ns := by
      rw [Document.tryPutAll, List.foldl_cons, tryPut_of_eq_none haccepted, Document.tryPutAll]
    -- the walk up from the parent does not come by a node that has moved
    have hsame (m : NodeId) : (d.put (.lastIn q) n).LiesIn q m ↔ d.LiesIn q m :=
      liesIn_of_avoids (fun x hx => by rw [hparent, if_neg hx]) hfree
    obtain ⟨hparents, hlists, hlies⟩ := ih (h.put hn (show d.Has (.lastIn q) from hq) haccepted)
      (hmore.isAllocated hq) (by rwa [hmore.isLeaf_iff hq]) hnodup
      (fun m hm => hmore.isAllocated (hrest m hm)) fun m hm => (hsame m).not.2 (houts m hm)
    rw [hstep]
    refine ⟨fun m => ?_, fun m => ?_, fun m => (hlies m).trans (hsame m)⟩
    · rw [hparents, hparent]
      by_cases hm : m = n <;> simp [hm]
    · have herase (m : NodeId) : ((d.children m).erase n).filter (· ∉ ns) =
          (d.children m).filter (· ∉ n :: ns) := by
        rw [(h.nodup_children m).erase_eq_filter, List.filter_filter]
        exact List.filter_congr fun x _ => by by_cases hx : x = n <;> simp [hx]
      rw [hlists, hchildren]
      by_cases hm : m = q
      · rw [if_pos hm, if_pos hm, if_pos hm, hm, List.filter_append, herase]
        simp [hnot]
      · rw [if_neg hm, if_neg hm, if_neg hm, herase]

theorem filter_insertInto_before {w : NodeId} (hw : w ≠ n) (hn : (before ++ [n] ++ after).Nodup) :
    ((Spot.before n).insertInto w (before ++ [n] ++ after)).filter (· ∉ [n]) = before ++ w :: after := by
  have hrest (cs : List NodeId) (hcs : n ∉ cs) :
      (cs.flatMap fun c => if c = n then [w, c] else [c]).filter (· ∉ [n]) = cs := by
    induction cs with
    | nil => rfl
    | cons c cs ih =>
      obtain ⟨hc, hcs⟩ := not_or.1 (List.mem_cons.not.1 hcs)
      rw [List.flatMap_cons, if_neg (Ne.symm hc), List.filter_append, ih hcs]
      simp [Ne.symm hc]
  rw [List.append_assoc, List.singleton_append, List.nodup_middle, List.nodup_cons, List.mem_append,
    not_or] at hn
  rw [Spot.insertInto, List.flatMap_append, List.flatMap_append, List.filter_append, List.filter_append,
    hrest before hn.1.1, hrest after hn.1.2]
  simp [hw]

/-! The state after enclosing. -/

/-- Children of `p` that stood together are now the children of `inner`, and `wrapper`, which holds
`inner`, stands in their place. -/
structure Encloses (d d' : Document) (p wrapper inner : NodeId) (inside : List NodeId) : Prop where
  wellFormed : d'.WellFormed
  data? : ∀ n < d.fresh, d'.data? n = d.data? n
  fresh_le : d.fresh ≤ d'.fresh
  parent_lt : p < d.fresh
  le_wrapper : d.fresh ≤ wrapper
  le_inner : d.fresh ≤ inner
  liesIn_inner : d'.LiesIn inner wrapper
  isElement_inner : d'.isElement inner
  around : ∃ before after, d.children p = before ++ inside ++ after ∧
    d'.children p = before ++ wrapper :: after
  inside_sublist : inside.Sublist (d'.children inner)
  children_of_ne : ∀ q < d.fresh, q ≠ p → d'.children q = d.children q
  parent?_of_not_mem : ∀ n < d.fresh, n ∉ inside → d'.parent? n = d.parent? n
  /-- Of the new nodes only the wrapper stands below an old one. -/
  le_of_parent? : ∀ n q, d.fresh ≤ n → n ≠ wrapper → d'.parent? n = some q → d.fresh ≤ q

section New
variable {read : Document} (h : d.WellFormed) (hadds : d.Adds read [wrapper])
  (hp : spot.parent? read = some p) (hold : d.isAllocated p)
include h hadds hp hold

theorem Adds.links_put :
    (∀ n < d.fresh, (read.put spot wrapper).parent? n = d.parent? n) ∧
      ∀ q < d.fresh, (read.put spot wrapper).children q =
        if q = p then spot.insertInto wrapper (d.children p) else d.children q := by
  obtain ⟨hle, hwrapper⟩ := hadds.of_mem _ List.mem_cons_self
  have hnext : ¬ spot.isNextTo wrapper := by
    intro hnext
    have hparent := (parent?_of_isNextTo hnext).symm.trans hp
    exact Nat.not_lt_of_le ((hadds.grows.apart _ _ hparent).1 hle) (lt_fresh hold)
  refine ⟨fun n hn => ?_, fun q hq => ?_⟩
  · have hne : n ≠ wrapper := Nat.ne_of_lt (Nat.lt_of_lt_of_le hn hle)
    rw [parent?_put hwrapper hp, if_neg hne, hadds.grows.parent?_of_lt hn]
  · have herase (q : NodeId) (hq : q < d.fresh) : (read.children q).erase wrapper = d.children q := by
      rw [hadds.grows.children_of_lt hq]
      exact List.erase_of_not_mem fun hmem => Nat.not_lt_of_le hle (lt_fresh (h.isAllocated_child hmem))
    rw [hadds.wellFormed.children_put hnext hp (hadds.grows.toExtends.isAllocated hold), herase q hq,
      herase p (lt_fresh hold)]

/-- A new tree goes to a spot below `p`, and children of `p` go into its innermost element. -/
theorem Adds.encloses (hleaf : ¬ d.isLeaf p) (helement : read.isElement wrapper)
    (haround : d.children p = before ++ inside ++ after)
    (hspot : (spot.insertInto wrapper (d.children p)).filter (· ∉ inside) = before ++ wrapper :: after) :
    let put := read.put spot wrapper
    d.Encloses (put.tryPutAll (.lastIn (put.innermost wrapper)) inside) p wrapper (put.innermost wrapper)
      inside := by
  intro put
  obtain ⟨hle, hwrapper⟩ := hadds.of_mem _ List.mem_cons_self
  have hmore := hadds.grows.toExtends
  have hmem (n : NodeId) (hn : n ∈ inside) : n ∈ d.children p := by simp [haround, hn]
  have hinside (n : NodeId) (hn : n ∈ inside) : d.isAllocated n := h.isAllocated_child (hmem n hn)
  have hnot : wrapper ∉ inside := fun hn => Nat.not_lt_of_le hle (lt_fresh (hinside _ hn))
  have hmoves := hadds.moves_fill (S := fun _ => False) (fun _ => False.elim) hp hold hleaf id
    fun n hn => ⟨hinside n hn, id⟩
  have hput := hadds.wellFormed.put hwrapper (has_of_parent? hp (hmore.isAllocated hold))
    (hadds.refusal?_eq_none hp hold hleaf)
  have hinner := hput.liesIn_innermost wrapper
  have hinnerNew := hadds.le_of_liesIn_put hp hinner
  have hinnerElement : put.isElement (put.innermost wrapper) :=
    isElement_innermost ((isElement_congr (data?_put read spot wrapper wrapper)).trans helement)
  obtain ⟨hparentPut, hchildrenPut⟩ := hadds.links_put h hp hold
  have hparent := parent?_put hwrapper hp
  have hnodup : inside.Nodup := by
    have hnodup := h.nodup_children p
    rw [haround] at hnodup
    exact (List.nodup_append.1 (List.nodup_append.1 hnodup).1).2.1
  -- different children of one node have no node in common
  have hout (b : NodeId) (hb : b ∈ inside) : ¬ put.LiesIn (put.innermost wrapper) b := by
    intro hlies
    have hbp : put.parent? b = some p :=
      (hparentPut b (lt_fresh (hinside b hb))).trans (h.parent?_eq_some_iff.2 (hmem b hb))
    have hwp : put.parent? wrapper = some p := by rw [hparent, if_pos rfl]
    have heq := hput.eq_of_liesIn_children (hput.parent?_eq_some_iff.1 hwp)
      (hput.parent?_eq_some_iff.1 hbp) hinner hlies
    exact hnot (heq ▸ hb)
  obtain ⟨hparents, hlists, hlies⟩ := hput.links_tryPutAll (isAllocated_of_isElement hinnerElement)
    (not_isLeaf_of_isElement hinnerElement) hnodup
    (fun n hn => (extends_put read spot wrapper).isAllocated (hmore.isAllocated (hinside n hn))) hout
  have hneInner {q : NodeId} (hq : q < d.fresh) : q ≠ put.innermost wrapper :=
    Nat.ne_of_lt (Nat.lt_of_lt_of_le hq hinnerNew)
  refine ⟨hmoves.wellFormed, hmoves.data?, hmoves.fresh_le, lt_fresh hold, hle, hinnerNew,
    (hlies wrapper).2 hinner, ?_, ⟨before, after, haround, ?_⟩, ?_, fun q hq hne => ?_, fun n hn hmem => ?_,
    fun n q hn hne hq => ?_⟩
  · refine (isElement_congr ?_).trans hinnerElement
    exact (extends_tryPutAll _ inside put).data? _ (lt_fresh (isAllocated_of_isElement hinnerElement))
  · rw [hlists, hchildrenPut p (lt_fresh hold), if_pos rfl, hspot, if_neg (hneInner (lt_fresh hold)),
      List.append_nil]
  · rw [hlists, if_pos rfl]
    exact List.sublist_append_right ..
  · rw [hlists, hchildrenPut q hq, if_neg hne, if_neg (hneInner hq), List.append_nil, List.filter_eq_self]
    refine fun c hc => decide_eq_true fun hmem' => hne (Option.some.inj ?_)
    rw [← h.parent?_eq_some_iff.2 hc, h.parent?_eq_some_iff.2 (hmem c hmem')]
  · rw [hparents, if_neg hmem, hparentPut n hn]
  · have hmem : n ∉ inside := fun hmem => Nat.not_lt_of_le hn (lt_fresh (hinside n hmem))
    rw [hparents, if_neg hmem, hparent, if_neg hne] at hq
    exact (hadds.grows.apart n q hq).1 hn

end New

namespace Encloses
variable (he : d.Encloses d' p wrapper inner inside)
include he

theorem mem_children (hx : x ∈ inside) : x ∈ d.children p := by
  obtain ⟨before, after, haround, -⟩ := he.around
  simp [haround, hx]

theorem parent?_wrapper : d'.parent? wrapper = some p := by
  obtain ⟨before, after, -, haround⟩ := he.around
  rw [he.wellFormed.parent?_eq_some_iff, haround]
  exact List.mem_append_right _ List.mem_cons_self

theorem parent?_of_mem (hx : x ∈ inside) : d'.parent? x = some inner :=
  he.wellFormed.parent?_eq_some_iff.2 (he.inside_sublist.subset hx)

theorem isWithin_wrapper (hx : x ∈ inside) : d'.isWithin x wrapper := by
  have hwithin := isWithin_of_parent? (he.parent?_of_mem hx)
  rcases he.liesIn_inner with heq | hinner
  · exact heq ▸ hwithin
  · exact isWithin_trans hwithin hinner

variable (h : d.WellFormed)
include h

theorem parent?_parent (hx : x ∈ inside) : d.parent? x = some p :=
  h.parent?_eq_some_iff.2 (he.mem_children hx)

theorem isWithin (hxy : d.isWithin x y) : d'.isWithin x y := by
  -- one step up is one step up or, for a node that is enclosed now, several
  have hstep {x y : NodeId} (hxy : d.parent? x = some y) : d'.isWithin x y := by
    by_cases hx : x ∈ inside
    · obtain rfl := Option.some.inj ((he.parent?_parent h hx).symm.trans hxy)
      exact isWithin_trans (he.isWithin_wrapper hx) (isWithin_of_parent? he.parent?_wrapper)
    · have hlt := lt_fresh (isAllocated_of_parent? hxy)
      exact isWithin_of_parent? ((he.parent?_of_not_mem x hlt hx).trans hxy)
  induction isWithin_iff.1 hxy using Relation.TransGen.head_induction_on with
  | single hab => exact hstep hab
  | head hab hbc ih => exact isWithin_trans (hstep hab) (ih (isWithin_iff.2 hbc))

theorem liesIn (hxy : d.LiesIn x y) : d'.LiesIn x y := hxy.imp_right (he.isWithin h)

theorem parent?_of_step (hx : x < d.fresh) (hmem : x ∉ inside) (hxy : d'.parent? x = some y) :
    d.parent? x = some y ∧ y < d.fresh := by
  have hparent := (he.parent?_of_not_mem x hx hmem).symm.trans hxy
  exact ⟨hparent, lt_fresh (h.isAllocated_parent hparent)⟩

theorem isWithin_of_lt (hx : x < d.fresh) (hy : y < d.fresh)
    (hxy : d'.isWithin x y) : d.isWithin x y := by
  -- from a new node the way to an old one leads over the wrapper and `p`
  suffices hboth : (x < d.fresh → d.isWithin x y) ∧ (d.fresh ≤ x → d.LiesIn p y) from hboth.1 hx
  clear hx
  induction isWithin_iff.1 hxy using Relation.TransGen.head_induction_on with
  | @single a hab =>
    refine ⟨fun ha => ?_, fun ha => ?_⟩
    · by_cases hmem : a ∈ inside
      · have heq := Option.some.inj ((he.parent?_of_mem hmem).symm.trans hab)
        exact absurd (heq ▸ he.le_inner) (Nat.not_le_of_lt hy)
      · exact isWithin_of_parent? (he.parent?_of_step h ha hmem hab).1
    · by_cases hw : a = wrapper
      · exact .inl (Option.some.inj (he.parent?_wrapper.symm.trans (hw ▸ hab)))
      · exact absurd (he.le_of_parent? a y ha hw hab) (Nat.not_le_of_lt hy)
  | @head a b hab hby ih =>
    have ih := ih (isWithin_iff.2 hby)
    refine ⟨fun ha => ?_, fun ha => ?_⟩
    · by_cases hmem : a ∈ inside
      · have heq := Option.some.inj ((he.parent?_of_mem hmem).symm.trans hab)
        exact (isWithin_iff_of_parent? (he.parent?_parent h hmem)).2 (ih.2 (heq ▸ he.le_inner))
      · obtain ⟨hparent, hb⟩ := he.parent?_of_step h ha hmem hab
        exact isWithin_trans (isWithin_of_parent? hparent) (ih.1 hb)
    · by_cases hw : a = wrapper
      · obtain rfl := Option.some.inj (he.parent?_wrapper.symm.trans (hw ▸ hab))
        exact .inr (ih.1 he.parent_lt)
      · exact ih.2 (he.le_of_parent? a b ha hw hab)

theorem exists_liesIn (hx : x < d.fresh) (hy : d.fresh ≤ y) (hxy : d'.isWithin x y) :
    ∃ b ∈ inside, d.LiesIn x b := by
  induction isWithin_iff.1 hxy using Relation.TransGen.head_induction_on with
  | @single a hab =>
    by_cases hmem : a ∈ inside
    · exact ⟨a, hmem, .inl rfl⟩
    · exact absurd (he.parent?_of_step h hx hmem hab).2 (Nat.not_lt_of_le hy)
  | @head a c hac hcy ih =>
    by_cases hmem : a ∈ inside
    · exact ⟨a, hmem, .inl rfl⟩
    · obtain ⟨hparent, hc⟩ := he.parent?_of_step h hx hmem hac
      obtain ⟨b, hb, hlies⟩ := ih hc (isWithin_iff.2 hcy)
      exact ⟨b, hb, .trans (.inr (isWithin_of_parent? hparent)) hlies⟩

theorem precedes (hxy : d.Precedes x y) : d'.Precedes x y := by
  cases hxy with
  | above hwithin => exact .above (he.isWithin h hwithin)
  | @beside q u v huv hxu hyv =>
    have hxu' := he.liesIn h hxu
    have hyv' := he.liesIn h hyv
    have hqlt := lt_fresh (isAllocated_of_mem_children (huv.subset List.mem_cons_self))
    by_cases hq : q = p
    swap
    · exact .beside (by rwa [he.children_of_ne q hqlt hq]) hxu' hyv'
    subst hq
    have hin {x b : NodeId} (hb : b ∈ inside) (hx : d'.LiesIn x b) : d'.LiesIn x wrapper :=
      hx.trans (.inr (he.isWithin_wrapper hb))
    obtain ⟨before, after, haround, haround'⟩ := he.around
    have hcases := pair_sublist_replace wrapper (haround ▸ huv)
    rw [← haround'] at hcases
    rcases hcases with huv | huv | ⟨hv, huw⟩ | ⟨hu, hwv⟩
    · exact .beside (huv.trans he.inside_sublist) hxu' hyv'
    · exact .beside huv hxu' hyv'
    · exact .beside huw hxu' (hin hv hyv')
    · exact .beside hwv (hin hu hxu') hyv'

theorem top (hx : x < d.fresh) : d'.top x = d.top x := by
  have htop := h.parent?_top x
  have hlt : d.top x < d.fresh := by
    rcases h.liesIn_top x with heq | hwithin
    · exact heq ▸ hx
    · exact h.lt_size_of_isWithin hwithin
  have hmem : d.top x ∉ inside := fun hmem => by
    rw [he.parent?_parent h hmem] at htop
    cases htop
  refine he.wellFormed.top_eq_of_liesIn (he.liesIn h (h.liesIn_top x)) ?_
  rw [he.parent?_of_not_mem _ hlt hmem, htop]

omit h in
theorem register (ns : List NodeId) : d.Encloses (d'.register ns) p wrapper inner inside :=
  { he with
    wellFormed := he.wellFormed.of_same_slots rfl
    liesIn_inner := by
      have hinner := liesIn_iff.1 he.liesIn_inner
      exact liesIn_iff.2 hinner }

end Encloses

end DomQuery.Document
