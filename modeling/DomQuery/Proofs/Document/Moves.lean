import DomQuery.Document.Move
import DomQuery.Proofs.Document.Slots

/-!
Taking a node out and putting it in. Either changes the parent of one node only, and a well-formed
document stays well formed when the spot does not refuse the node.
-/
namespace DomQuery
variable {d d' : Document} {n m p q s : NodeId} {spot : Spot} {cs : List NodeId}

/-! Acyclic links. -/

namespace Climb
variable {next next' : NodeId → Option NodeId} {a b : NodeId}

theorem reach_of_relinked (h : ∀ m ≠ n, next' m = next m)
    (ha : Relation.ReflTransGen (Step next') a n) : Relation.ReflTransGen (Step next) a n := by
  induction ha using Relation.ReflTransGen.head_induction_on with
  | refl => exact .refl
  | @head x y hstep _ ih =>
    by_cases hx : x = n
    · subst hx
      exact .refl
    · exact .head ((h x hx).symm.trans hstep) ih

theorem transGen_of_relinked (h : ∀ m ≠ n, next' m = next m) (hn : next' n = some p)
    (hab : Relation.TransGen (Step next') a b) : Relation.TransGen (Step next) a b ∨
      Relation.ReflTransGen (Step next') a n ∧ Relation.ReflTransGen (Step next') p b := by
  induction hab using Relation.TransGen.head_induction_on with
  | single hstep =>
    rename_i a
    by_cases ha : a = n
    · subst ha
      obtain rfl := Option.some.inj (hn.symm.trans hstep)
      exact .inr ⟨.refl, .refl⟩
    · exact .inl (.single ((h a ha).symm.trans hstep))
  | head hstep hrest ih =>
    rename_i a c
    by_cases ha : a = n
    · subst ha
      obtain rfl := Option.some.inj (hn.symm.trans hstep)
      exact .inr ⟨.refl, hrest.to_reflTransGen⟩
    · cases ih with
      | inl hcb => exact .inl (.head ((h a ha).symm.trans hstep) hcb)
      | inr hthrough => exact .inr ⟨.head hstep hthrough.1, hthrough.2⟩

theorem acyclic_of_relinked (hacyclic : ∀ a, ¬ Relation.TransGen (Step next) a a)
    (h : ∀ m ≠ n, next' m = next m) (hn : next' n = some p)
    (hp : ¬ Relation.ReflTransGen (Step next) p n) (a : NodeId) :
    ¬ Relation.TransGen (Step next') a a := by
  intro ha
  cases transGen_of_relinked h hn ha with
  | inl ha => exact hacyclic a ha
  | inr hthrough => exact hp (reach_of_relinked h (hthrough.2.trans hthrough.1))

theorem reach_of_avoids (h : ∀ m ≠ n, next' m = next m)
    (hn : ¬ Relation.ReflTransGen (Step next) a n) (hab : Relation.ReflTransGen (Step next') a b) :
    Relation.ReflTransGen (Step next) a b := by
  induction hab using Relation.ReflTransGen.head_induction_on with
  | refl => exact .refl
  | @head x y hstep _ ih =>
    have hx : Step next x y := (h x fun heq => hn (heq ▸ .refl)).symm.trans hstep
    exact .head hx (ih fun hy => hn (.head hx hy))

end Climb

/-! The list of children. -/

namespace Spot

theorem mem_insertInto (hspot : ∀ s, spot = .before s ∨ spot = .after s → s ∈ cs) :
    m ∈ spot.insertInto n cs ↔ m = n ∨ m ∈ cs := by
  cases spot with
  | firstIn p => exact List.mem_cons
  | lastIn p =>
    rw [insertInto, List.mem_append, List.mem_singleton, or_comm]
  | before s =>
    have hs := hspot s (.inl rfl)
    simp only [insertInto, List.mem_flatMap]
    constructor
    · rintro ⟨c, hc, hm⟩
      split at hm <;> grind
    · rintro (rfl | hm)
      · exact ⟨s, hs, by simp⟩
      · refine ⟨m, hm, ?_⟩
        split <;> simp
  | after s =>
    have hs := hspot s (.inr rfl)
    simp only [insertInto, List.mem_flatMap]
    constructor
    · rintro ⟨c, hc, hm⟩
      split at hm <;> grind
    · rintro (rfl | hm)
      · exact ⟨s, hs, by simp⟩
      · refine ⟨m, hm, ?_⟩
        split <;> simp

theorem nodup_insertInto (hcs : cs.Nodup) (hn : n ∉ cs) : (spot.insertInto n cs).Nodup := by
  have hbeside (f : NodeId → List NodeId) (s : NodeId) (hs : (f s).Perm [n, s])
      (hother : ∀ c ≠ s, f c = [c]) : (cs.flatMap f).Nodup := by
    have hsame (cs : List NodeId) (hcs : s ∉ cs) : cs.flatMap f = cs := by
      induction cs with
      | nil => rfl
      | cons c cs ih =>
        rw [List.mem_cons, not_or] at hcs
        rw [List.flatMap_cons, hother c (Ne.symm hcs.1), ih hcs.2]
        rfl
    by_cases hmem : s ∈ cs
    · obtain ⟨before, after, rfl⟩ := List.append_of_mem hmem
      rw [List.nodup_middle, List.nodup_cons, List.mem_append, not_or] at hcs
      rw [List.flatMap_append, List.flatMap_cons, hsame before hcs.1.1, hsame after hcs.1.2]
      have hperm : (before ++ (f s ++ after)).Perm (n :: (before ++ s :: after)) := by
        refine ((hs.append_right after).append_left before).trans ?_
        exact List.perm_middle
      rw [hperm.nodup_iff, List.nodup_cons, List.nodup_middle, List.nodup_cons]
      exact ⟨hn, List.mem_append.not.2 (not_or.2 hcs.1), hcs.2⟩
    · rw [hsame cs hmem]
      exact hcs
  cases spot with
  | firstIn p => exact List.nodup_cons.2 ⟨hn, hcs⟩
  | lastIn p =>
    rw [insertInto, List.nodup_append_comm]
    exact List.nodup_cons.2 ⟨hn, hcs⟩
  | before s =>
    refine hbeside _ s ?_ fun c hc => if_neg hc
    rw [if_pos rfl]
  | after s =>
    refine hbeside _ s ?_ fun c hc => if_neg hc
    rw [if_pos rfl]
    exact List.Perm.swap ..

end Spot

namespace Document

/-! Walks around one new link. -/

theorem liesIn_relinked (hsame : ∀ x ≠ n, d'.parent? x = d.parent? x) :
    d'.LiesIn m n ↔ d.LiesIn m n := by
  rw [liesIn_iff, liesIn_iff]
  exact ⟨Climb.reach_of_relinked hsame, Climb.reach_of_relinked fun x hx => (hsame x hx).symm⟩

theorem liesIn_of_avoids (hsame : ∀ x ≠ n, d'.parent? x = d.parent? x) (hm : ¬ d.LiesIn m n) :
    d'.LiesIn m q ↔ d.LiesIn m q := by
  have hm' : ¬ d'.LiesIn m n := (liesIn_relinked hsame).not.2 hm
  rw [liesIn_iff] at hm hm'
  rw [liesIn_iff, liesIn_iff]
  exact ⟨Climb.reach_of_avoids hsame hm,
    Climb.reach_of_avoids (fun x hx => (hsame x hx).symm) hm'⟩

/-! Taking out. -/

@[simp]
theorem parent?_detach (d : Document) (n m : NodeId) :
    (d.detach n).parent? m = if m = n then none else d.parent? m := by
  rw [detach]
  split
  · rename_i hnone
    split
    · rename_i h
      rw [h, hnone]
    · rfl
  · rename_i p hp
    have hn := isAllocated_of_parent? hp
    rw [parent?_setParent (by rwa [isAllocated_modify]), parent?_modify]
    exact fun _ => rfl

@[simp]
theorem data?_detach (d : Document) (n m : NodeId) : (d.detach n).data? m = d.data? m := by
  rw [detach]
  split
  · rfl
  · rw [data?_modify, data?_modify]
    · exact fun _ => ⟨rfl, rfl⟩
    · exact fun _ => ⟨rfl, rfl⟩

@[simp]
theorem fresh_detach (d : Document) (n : NodeId) : (d.detach n).fresh = d.fresh := by
  rw [detach]
  split
  · rfl
  · rw [fresh_modify, fresh_modify]

@[simp]
theorem roots_detach (d : Document) (n : NodeId) : (d.detach n).roots = d.roots := by
  rw [detach]
  split <;> rfl

theorem extends_detach (d : Document) (n : NodeId) : d.Extends (d.detach n) :=
  ⟨fun m _ => data?_detach d n m, (fresh_detach d n).ge, roots_detach d n⟩

theorem WellFormed.children_detach (h : d.WellFormed) (n q : NodeId) :
    (d.detach n).children q = (d.children q).erase n := by
  rw [detach]
  split
  · rename_i hnone
    refine (List.erase_of_not_mem fun hn => ?_).symm
    rw [← h.parent?_eq_some_iff, hnone] at hn
    cases hn
  · rename_i p hp
    have hchildren := children_modify_self (m := q) (f := fun node : Node =>
      { node with children := node.children.erase n }) (g := (·.erase n))
      (h.isAllocated_parent hp) fun _ => rfl
    rw [children_modify, hchildren]
    swap
    · exact fun _ => rfl
    split
    · rename_i hq
      rw [hq]
    · rename_i hq
      refine (List.erase_of_not_mem fun hn => hq ?_).symm
      exact Option.some.inj ((h.parent?_eq_some_iff.2 hn).symm.trans hp)

theorem WellFormed.not_isWithin_of_parent? (h : d.WellFormed)
    (hparent : ∀ m p, d'.parent? m = some p → d.parent? m = some p) (n : NodeId) :
    ¬ d'.isWithin n n := by
  intro hn
  have hstep : ∀ a b, Climb.Step d'.parent? a b → Climb.Step d.parent? a b := hparent
  exact h.not_isWithin_self n (isWithin_iff.2 (Relation.TransGen.mono hstep n n (isWithin_iff.1 hn)))

theorem WellFormed.detach (h : d.WellFormed) (n : NodeId) : (d.detach n).WellFormed where
  parent?_eq_some_iff {m p} := by
    rw [parent?_detach, h.children_detach, (h.nodup_children p).mem_erase_iff,
      ← h.parent?_eq_some_iff]
    split
    · rename_i hm
      exact iff_of_false nofun fun hmem => hmem.1 hm
    · rename_i hm
      exact ⟨fun hp => ⟨hm, hp⟩, And.right⟩
  nodup_children p := by
    rw [h.children_detach]
    exact (h.nodup_children p).erase n
  not_isWithin_self := h.not_isWithin_of_parent? fun m p hp => by
    rw [parent?_detach] at hp
    split at hp
    · cases hp
    · exact hp
  children_of_isLeaf {m} hleaf := by
    rw [isLeaf_congr (data?_detach d n m)] at hleaf
    rw [h.children_detach, h.children_of_isLeaf hleaf]
    rfl

/-! Putting in. -/

theorem refusal?_eq_none_iff : d.refusal? spot n = none ↔
    ∃ p, spot.parent? d = some p ∧ (spot.isNextTo n ∨ d.accepts p n) := by
  rw [refusal?]
  cases spot.parent? d with
  | none => simp
  | some p => cases hnext : spot.isNextTo n <;> simp

theorem accepts_iff : d.accepts p n ↔ ¬ d.isLeaf p ∧ ¬ d.LiesIn p n := by
  simp [accepts, LiesIn, not_or, and_assoc]

/-- A spot in a document: the nodes that it names are nodes of the document. -/
def Has (d : Document) : Spot → Prop
  | .firstIn p => d.isAllocated p
  | .lastIn p => d.isAllocated p
  | .before s => d.isAllocated s
  | .after s => d.isAllocated s

instance (d : Document) : (spot : Spot) → Decidable (d.Has spot)
  | .firstIn p => inferInstanceAs (Decidable (d.isAllocated p))
  | .lastIn p => inferInstanceAs (Decidable (d.isAllocated p))
  | .before s => inferInstanceAs (Decidable (d.isAllocated s))
  | .after s => inferInstanceAs (Decidable (d.isAllocated s))

theorem has_of_parent? (hp : spot.parent? d = some p) (hallocated : d.isAllocated p) :
    d.Has spot := by
  cases spot with
  | firstIn q => exact Option.some.inj hp ▸ hallocated
  | lastIn q => exact Option.some.inj hp ▸ hallocated
  | before s => exact isAllocated_of_parent? hp
  | after s => exact isAllocated_of_parent? hp

theorem WellFormed.isAllocated_spotParent (h : d.WellFormed) (hspot : d.Has spot)
    (hp : spot.parent? d = some p) : d.isAllocated p := by
  cases spot with
  | firstIn q => exact Option.some.inj hp ▸ hspot
  | lastIn q => exact Option.some.inj hp ▸ hspot
  | before s => exact h.isAllocated_parent hp
  | after s => exact h.isAllocated_parent hp

theorem put_of_isNextTo (hnext : spot.isNextTo n) : d.put spot n = d := by rw [put, if_pos hnext]

theorem put_of_parent? (hnext : ¬ spot.isNextTo n) (hp : spot.parent? d = some p) :
    d.put spot n = ((d.detach n).modify p fun node =>
      { node with children := spot.insertInto n node.children }).modify n
        fun node => { node with parent := some p } := by
  rw [put, if_neg hnext, hp]

theorem parent?_of_isNextTo (hnext : spot.isNextTo n) : spot.parent? d = d.parent? n := by
  cases spot with
  | firstIn p => cases hnext
  | lastIn p => cases hnext
  | before s =>
    have hs : s = n := by simpa [Spot.isNextTo] using hnext
    rw [hs]
    rfl
  | after s =>
    have hs : s = n := by simpa [Spot.isNextTo] using hnext
    rw [hs]
    rfl

@[simp]
theorem data?_put (d : Document) (spot : Spot) (n m : NodeId) :
    (d.put spot n).data? m = d.data? m := by
  rw [put]
  split
  · rfl
  · split
    · rfl
    · rw [data?_modify, data?_modify, data?_detach]
      · exact fun _ => ⟨rfl, rfl⟩
      · exact fun _ => ⟨rfl, rfl⟩

@[simp]
theorem fresh_put (d : Document) (spot : Spot) (n : NodeId) : (d.put spot n).fresh = d.fresh := by
  rw [put]
  split
  · rfl
  · split
    · rfl
    · rw [fresh_modify, fresh_modify, fresh_detach]

@[simp]
theorem roots_put (d : Document) (spot : Spot) (n : NodeId) : (d.put spot n).roots = d.roots := by
  rw [put]
  split
  · rfl
  · split
    · rfl
    · exact roots_detach d n

theorem extends_put (d : Document) (spot : Spot) (n : NodeId) : d.Extends (d.put spot n) :=
  ⟨fun m _ => data?_put d spot n m, (fresh_put d spot n).ge, roots_put d spot n⟩

theorem parent?_put (hn : d.isAllocated n) (hp : spot.parent? d = some p) (m : NodeId) :
    (d.put spot n).parent? m = if m = n then some p else d.parent? m := by
  by_cases hnext : spot.isNextTo n
  · rw [put_of_isNextTo hnext]
    split
    · rename_i hm
      rw [hm, ← parent?_of_isNextTo hnext, hp]
    · rfl
  · have hn' : (d.detach n).isAllocated n := (isAllocated_congr (data?_detach d n n)).2 hn
    rw [put_of_parent? hnext hp, parent?_setParent (by rwa [isAllocated_modify]), parent?_modify,
      parent?_detach]
    · split <;> rfl
    · exact fun _ => rfl

theorem WellFormed.children_put (h : d.WellFormed) (hnext : ¬ spot.isNextTo n)
    (hp : spot.parent? d = some p) (hallocated : d.isAllocated p) (q : NodeId) :
    (d.put spot n).children q =
      if q = p then spot.insertInto n ((d.children p).erase n) else (d.children q).erase n := by
  have hchildren := children_modify_self (m := q) (f := fun node : Node =>
    { node with children := spot.insertInto n node.children }) (g := spot.insertInto n)
    ((isAllocated_congr (data?_detach d n p)).2 hallocated) fun _ => rfl
  rw [put_of_parent? hnext hp, children_modify, hchildren, h.children_detach, h.children_detach]
  exact fun _ => rfl

theorem WellFormed.mem_erase_of_spot (h : d.WellFormed) (hnext : ¬ spot.isNextTo n)
    (hp : spot.parent? d = some p) (s : NodeId) (hs : spot = .before s ∨ spot = .after s) :
    s ∈ (d.children p).erase n := by
  have hsp : d.parent? s = some p ∧ s ≠ n := by
    rcases hs with rfl | rfl
    · exact ⟨hp, by simpa [Spot.isNextTo] using hnext⟩
    · exact ⟨hp, by simpa [Spot.isNextTo] using hnext⟩
  exact (h.nodup_children p).mem_erase_iff.2 ⟨hsp.2, h.parent?_eq_some_iff.1 hsp.1⟩

theorem WellFormed.put (h : d.WellFormed) (hn : d.isAllocated n) (hspot : d.Has spot)
    (haccepted : d.refusal? spot n = none) : (d.put spot n).WellFormed := by
  obtain ⟨p, hp, haccepts⟩ := refusal?_eq_none_iff.1 haccepted
  by_cases hnext : spot.isNextTo n
  · rw [put_of_isNextTo hnext]
    exact h
  obtain ⟨hleaf, hlies⟩ := accepts_iff.1 (haccepts.resolve_left hnext)
  have hchildren := h.children_put hnext hp (h.isAllocated_spotParent hspot hp)
  have hsibling := h.mem_erase_of_spot hnext hp
  have hnot : n ∉ (d.children p).erase n := (h.nodup_children p).not_mem_erase
  refine ⟨fun {m q} => ?_, fun q => ?_, fun m hm => ?_, fun {m} hm => ?_⟩
  · rw [parent?_put hn hp, hchildren]
    by_cases hq : q = p
    · subst hq
      rw [if_pos rfl, Spot.mem_insertInto hsibling, (h.nodup_children q).mem_erase_iff,
        ← h.parent?_eq_some_iff]
      by_cases hm : m = n <;> simp [hm]
    · rw [if_neg hq, (h.nodup_children q).mem_erase_iff, ← h.parent?_eq_some_iff]
      by_cases hm : m = n
      · simp [hm, Ne.symm hq]
      · simp [hm]
  · rw [hchildren]
    split
    · exact Spot.nodup_insertInto ((h.nodup_children p).erase n) hnot
    · exact (h.nodup_children q).erase n
  · have hacyclic (a : NodeId) : ¬ Relation.TransGen (Climb.Step d.parent?) a a :=
      fun ha => h.not_isWithin_self a (isWithin_iff.2 ha)
    refine Climb.acyclic_of_relinked hacyclic (n := n) (p := p) ?_ ?_ ?_ m (isWithin_iff.1 hm)
    · intro x hx
      rw [parent?_put hn hp, if_neg hx]
    · rw [parent?_put hn hp, if_pos rfl]
    · exact fun hreach => hlies (liesIn_iff.2 hreach)
  · rw [isLeaf_congr (data?_put d spot n m)] at hm
    rw [hchildren, if_neg fun hmp : m = p => hleaf (hmp ▸ hm), h.children_of_isLeaf hm]
    rfl

/-! Several moves. -/

theorem Extends.has (h : d.Extends d') (hspot : d.Has spot) : d'.Has spot := by
  cases spot with
  | firstIn p => exact h.isAllocated hspot
  | lastIn p => exact h.isAllocated hspot
  | before s => exact h.isAllocated hspot
  | after s => exact h.isAllocated hspot

theorem parent?_foldl_detach (ns : List NodeId) (d : Document) (m : NodeId) :
    (ns.foldl detach d).parent? m = if m ∈ ns then none else d.parent? m := by
  induction ns generalizing d with
  | nil => simp
  | cons n ns ih =>
    rw [List.foldl_cons, ih, parent?_detach]
    by_cases hm : m = n <;> simp [hm]

theorem data?_foldl_detach (ns : List NodeId) (d : Document) (m : NodeId) :
    (ns.foldl detach d).data? m = d.data? m := by
  induction ns generalizing d with
  | nil => rfl
  | cons n ns ih => rw [List.foldl_cons, ih, data?_detach]

theorem fresh_foldl_detach (ns : List NodeId) (d : Document) : (ns.foldl detach d).fresh = d.fresh := by
  induction ns generalizing d with
  | nil => rfl
  | cons n ns ih => rw [List.foldl_cons, ih, fresh_detach]

theorem extends_foldl_detach (ns : List NodeId) (d : Document) : d.Extends (ns.foldl detach d) := by
  induction ns generalizing d with
  | nil => exact .refl d
  | cons n ns ih => exact (extends_detach d n).trans (ih (d.detach n))

theorem WellFormed.foldl_detach (h : d.WellFormed) (ns : List NodeId) :
    (ns.foldl Document.detach d).WellFormed := by
  induction ns generalizing d with
  | nil => exact h
  | cons n ns ih => exact ih (h.detach n)

theorem filter_erase (hcs : cs.Nodup) (n : NodeId) (ns : List NodeId) :
    (cs.erase n).filter (· ∉ ns) = cs.filter (· ∉ n :: ns) := by
  rw [hcs.erase_eq_filter, List.filter_filter]
  refine List.filter_congr fun m _ => ?_
  rw [Bool.eq_iff_iff]
  simp [and_comm]

theorem WellFormed.children_foldl_detach (h : d.WellFormed) (ns : List NodeId) (p : NodeId) :
    (ns.foldl Document.detach d).children p = (d.children p).filter (· ∉ ns) := by
  induction ns generalizing d with
  | nil => simp
  | cons n ns ih =>
    rw [List.foldl_cons, ih (h.detach n), h.children_detach, filter_erase (h.nodup_children p)]

theorem WellFormed.clearChildren (h : d.WellFormed) (n : NodeId) :
    (d.clearChildren n).WellFormed := h.foldl_detach (d.children n)

theorem extends_clearChildren (d : Document) (n : NodeId) : d.Extends (d.clearChildren n) :=
  extends_foldl_detach (d.children n) d

theorem tryPut_of_isSome (h : (d.refusal? spot n).isSome) : d.tryPut spot n = d := if_pos h

theorem tryPut_of_eq_none (h : d.refusal? spot n = none) : d.tryPut spot n = d.put spot n := by
  rw [tryPut, h]
  rfl

theorem extends_tryPut (d : Document) (spot : Spot) (n : NodeId) : d.Extends (d.tryPut spot n) := by
  rw [tryPut]
  split
  · exact .refl d
  · exact extends_put d spot n

theorem WellFormed.tryPut (h : d.WellFormed) (hn : d.isAllocated n) (hspot : d.Has spot) :
    (d.tryPut spot n).WellFormed := by
  cases haccepted : d.refusal? spot n with
  | none =>
    rw [tryPut_of_eq_none haccepted]
    exact h.put hn hspot haccepted
  | some e =>
    rw [tryPut_of_isSome (by rw [haccepted]; rfl)]
    exact h

theorem extends_tryPutAll (spot : Spot) (ns : List NodeId) (d : Document) :
    d.Extends (d.tryPutAll spot ns) := by
  induction ns generalizing d with
  | nil => exact .refl d
  | cons n ns ih => exact (extends_tryPut d spot n).trans (ih (d.tryPut spot n))

theorem WellFormed.tryPutAll (h : d.WellFormed) {ns : List NodeId}
    (hns : ∀ n ∈ ns, d.isAllocated n) (hspot : d.Has spot) : (d.tryPutAll spot ns).WellFormed := by
  induction ns generalizing d with
  | nil => exact h
  | cons n ns ih =>
    have hmore := extends_tryPut d spot n
    refine ih (h.tryPut (hns n List.mem_cons_self) hspot) (fun m hm => ?_) (hmore.has hspot)
    exact hmore.isAllocated (hns m (List.mem_cons_of_mem n hm))

theorem parent?_tryPutAll {ns : List NodeId} (hns : ∀ n ∈ ns, d.isAllocated n) (m : NodeId) :
    (d.tryPutAll (.lastIn p) ns).parent? m = d.parent? m ∨
      m ∈ ns ∧ (d.tryPutAll (.lastIn p) ns).parent? m = some p := by
  induction ns generalizing d with
  | nil => exact .inl rfl
  | cons n ns ih =>
    have hstep : (d.tryPut (.lastIn p) n).parent? m = d.parent? m ∨
        m = n ∧ (d.tryPut (.lastIn p) n).parent? m = some p := by
      rw [tryPut]
      split
      · exact .inl rfl
      · rw [parent?_put (hns n List.mem_cons_self) rfl]
        split
        · rename_i hm
          exact .inr ⟨hm, rfl⟩
        · exact .inl rfl
    have hrest := ih (d := d.tryPut (.lastIn p) n) fun x hx =>
      (extends_tryPut d _ n).isAllocated (hns x (List.mem_cons_of_mem n hx))
    rcases hrest with hsame | ⟨hm, hp⟩
    · rcases hstep with hstep | ⟨hm, hp⟩
      · exact .inl (hsame.trans hstep)
      · exact .inr ⟨hm ▸ List.mem_cons_self, hsame.trans hp⟩
    · exact .inr ⟨List.mem_cons_of_mem n hm, hp⟩

end Document
end DomQuery
