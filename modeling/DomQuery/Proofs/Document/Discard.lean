import DomQuery.Document.Move
import DomQuery.Proofs.Document.Moves
import DomQuery.Proofs.Document.Preorder

/-!
Freeing nodes. A node is freed with all that lies below it and nothing else, so what is left stays well
formed.
-/
namespace DomQuery.Document
variable {d d' : Document} {S : NodeId → Prop} {n m p q : NodeId}

theorem node?_foldl_free (ns : List NodeId) (d : Document) (m : NodeId) :
    (ns.foldl free d).node? m = if m ∈ ns then none else d.node? m := by
  induction ns generalizing d with
  | nil => simp
  | cons n ns ih =>
    rw [List.foldl_cons, ih, node?_free]
    by_cases hm : m = n <;> simp [hm]

@[simp]
theorem fresh_foldl_free (ns : List NodeId) (d : Document) : (ns.foldl free d).fresh = d.fresh := by
  induction ns generalizing d with
  | nil => rfl
  | cons n ns ih => rw [List.foldl_cons, ih, fresh_free]

@[simp]
theorem roots_foldl_free (ns : List NodeId) (d : Document) : (ns.foldl free d).roots = d.roots := by
  induction ns generalizing d with
  | nil => rfl
  | cons n ns ih => exact ih (d.free n)

@[simp]
theorem fresh_discard (d : Document) (n : NodeId) : (d.discard n).fresh = d.fresh := by
  rw [discard, fresh_foldl_free, fresh_detach]

@[simp]
theorem roots_discard (d : Document) (n : NodeId) : (d.discard n).roots = d.roots := by
  rw [discard, roots_foldl_free, roots_detach]

namespace WellFormed
variable (h : d.WellFormed) (hn : d.isAllocated n)
include h hn

theorem node?_discard (m : NodeId) [Decidable (d.LiesIn m n)] :
    (d.discard n).node? m = if d.LiesIn m n then none else (d.detach n).node? m := by
  rw [discard, node?_foldl_free]
  exact if_congr (h.mem_subtree_iff (Nat.zero_lt_of_lt (lt_fresh hn))) rfl rfl

theorem isAllocated_discard (m : NodeId) :
    (d.discard n).isAllocated m ↔ d.isAllocated m ∧ ¬ d.LiesIn m n := by
  classical
  rw [Document.isAllocated, h.node?_discard hn]
  split
  · rename_i hm
    exact iff_of_false Bool.false_ne_true fun hkept => hkept.2 hm
  · rename_i hm
    exact (isAllocated_congr (data?_detach d n m)).trans (and_iff_left hm).symm

theorem data?_discard (hm : ¬ d.LiesIn m n) : (d.discard n).data? m = d.data? m := by
  classical
  rw [data?, h.node?_discard hn, if_neg hm]
  exact data?_detach d n m

theorem parent?_discard (hm : ¬ d.LiesIn m n) : (d.discard n).parent? m = d.parent? m := by
  classical
  rw [Document.parent?, h.node?_discard hn, if_neg hm]
  refine (parent?_detach d n m).trans (if_neg fun heq => hm (.inl heq))

theorem parent?_discard_eq_some_iff :
    (d.discard n).parent? m = some p ↔ d.parent? m = some p ∧ ¬ d.LiesIn m n := by
  classical
  by_cases hm : d.LiesIn m n
  · rw [Document.parent?, h.node?_discard hn, if_pos hm]
    exact iff_of_false (by simp) fun hkept => hkept.2 hm
  · rw [h.parent?_discard hn hm]
    exact (and_iff_left hm).symm

theorem children_discard (hp : ¬ d.LiesIn p n) : (d.discard n).children p = (d.children p).erase n := by
  classical
  rw [Document.children, h.node?_discard hn, if_neg hp]
  exact h.children_detach n p

theorem mem_children_discard :
    m ∈ (d.discard n).children p ↔ m ∈ d.children p ∧ ¬ d.LiesIn m n := by
  classical
  by_cases hp : d.LiesIn p n
  · rw [Document.children, h.node?_discard hn, if_pos hp]
    refine iff_of_false List.not_mem_nil fun hm => hm.2 ?_
    exact (show d.LiesIn m p from .inr (h.isWithin_of_mem_children hm.1)).trans hp
  · rw [h.children_discard hn hp, (h.nodup_children p).mem_erase_iff, and_comm]
    refine and_congr_right fun hm => not_congr ?_
    -- a child of a node that stays lies in the subtree only as its root
    refine ⟨.inl, fun hmn => hmn.resolve_right fun hwithin => hp ?_⟩
    exact ((isWithin_iff_of_parent? (h.parent?_eq_some_iff.2 hm)).1 hwithin)

theorem isWithin_discard (hm : ¬ d.LiesIn m n) : (d.discard n).isWithin m q ↔ d.isWithin m q := by
  rw [isWithin_iff, isWithin_iff]
  refine ⟨Relation.TransGen.mono (fun a b hab => ((h.parent?_discard_eq_some_iff hn).1 hab).1) m q,
    fun hwithin => ?_⟩
  induction hwithin using Relation.TransGen.head_induction_on with
  | single hab => exact .single ((h.parent?_discard hn hm).trans hab)
  | head hab hbq ih =>
    have hstep := (h.parent?_discard hn hm).trans hab
    exact .head hstep (ih fun hb => hm (.trans (.inr (isWithin_of_parent? hab)) hb))

theorem liesIn_discard (hm : ¬ d.LiesIn m n) : (d.discard n).LiesIn m q ↔ d.LiesIn m q :=
  or_congr_right (h.isWithin_discard hn hm)

theorem isTopLevel_discard (hm : ¬ d.LiesIn m n) :
    (d.discard n).isTopLevel m = d.isTopLevel m := by
  rw [isTopLevel, isTopLevel, h.parent?_discard hn hm]
  cases hp : d.parent? m with
  | none => rfl
  | some p =>
    have hout : ¬ d.LiesIn p n := fun hpn => hm (.trans (.inr (isWithin_of_parent? hp)) hpn)
    rw [Option.all_some, Option.all_some, isFragment_congr (h.data?_discard hn hout)]

theorem discard : (d.discard n).WellFormed where
  parent?_eq_some_iff {m p} := by
    rw [h.parent?_discard_eq_some_iff hn, h.mem_children_discard hn, h.parent?_eq_some_iff]
  nodup_children p := by
    classical
    rw [Document.children, h.node?_discard hn]
    split
    · exact List.nodup_nil
    · exact (h.detach n).nodup_children p
  not_isWithin_self := h.not_isWithin_of_parent? fun m p hp =>
    ((h.parent?_discard_eq_some_iff hn).1 hp).1
  children_of_isLeaf {m} hleaf := by
    have hkept := ((h.isAllocated_discard hn m).1 (isAllocated_of_isLeaf hleaf)).2
    rw [isLeaf_congr (h.data?_discard hn hkept)] at hleaf
    refine List.eq_nil_iff_forall_not_mem.2 fun c hc => ?_
    have hc := ((h.mem_children_discard hn).1 hc).1
    rw [h.children_of_isLeaf hleaf] at hc
    cases hc

theorem extends_discard {old : Document} (hold : old.Extends d)
    (hnew : ∀ m, d.LiesIn m n → old.fresh ≤ m) : old.Extends (d.discard n) where
  data? m hm := by
    rw [h.data?_discard hn fun hlies => Nat.not_lt_of_le (hnew m hlies) hm, hold.data? m hm]
  fresh_le := by
    rw [fresh_discard]
    exact hold.fresh_le
  roots := by
    rw [roots_discard]
    exact hold.roots

end WellFormed

/-! A container that is freed once nothing is left in it. -/

@[simp]
theorem fresh_discardIfDrained (d : Document) (n : NodeId) : (d.discardIfDrained n).fresh = d.fresh := by
  rw [discardIfDrained]
  split
  · exact fresh_discard d n
  · rfl

@[simp]
theorem roots_discardIfDrained (d : Document) (n : NodeId) : (d.discardIfDrained n).roots = d.roots := by
  rw [discardIfDrained]
  split
  · exact roots_discard d n
  · rfl

theorem discardIfDrained_of_filled (hfilled : d.children n ≠ []) : d.discardIfDrained n = d := by
  rw [discardIfDrained, List.isEmpty_eq_false_iff.2 hfilled, Bool.and_false]
  rfl

theorem discardIfDrained_of_empty (hn : d.isFragment n) (hempty : d.children n = []) :
    d.discardIfDrained n = d.discard n := by
  rw [discardIfDrained, hn, hempty]
  rfl

namespace WellFormed
variable (h : d.WellFormed)
include h

theorem discardIfDrained (n : NodeId) : (d.discardIfDrained n).WellFormed := by
  rw [Document.discardIfDrained]
  split
  · rename_i hdrained
    exact h.discard (isAllocated_of_isFragment (Bool.and_eq_true_iff.1 hdrained).1)
  · exact h

variable (hn : d.isFragment n)
include hn

theorem node?_discardIfDrained_self :
    (d.discardIfDrained n).node? n = if d.children n = [] then none else d.node? n := by
  split
  · rename_i hempty
    have hgone : ¬ (d.discard n).isAllocated n := fun hthere =>
      ((h.isAllocated_discard (isAllocated_of_isFragment hn) n).1 hthere).2 (.inl rfl)
    rw [discardIfDrained_of_empty hn hempty]
    simpa [isAllocated] using hgone
  · rename_i hfilled
    rw [discardIfDrained_of_filled hfilled]

theorem children_discardIfDrained_self : (d.discardIfDrained n).children n = d.children n := by
  rw [Document.children, h.node?_discardIfDrained_self hn]
  split
  · rename_i hempty
    exact hempty.symm
  · rfl

theorem isAllocated_discardIfDrained_self :
    (d.discardIfDrained n).isAllocated n ↔ d.children n ≠ [] := by
  rw [isAllocated, h.node?_discardIfDrained_self hn]
  split
  · rename_i hempty
    exact iff_of_false Bool.false_ne_true fun hfilled => hfilled hempty
  · rename_i hfilled
    exact iff_of_true (isAllocated_of_isFragment hn) hfilled

theorem node?_discardIfDrained (htop : d.parent? n = none) (hm : m ≠ n) :
    (d.discardIfDrained n).node? m = d.node? m := by
  by_cases hempty : d.children n = []
  · have hallocated := isAllocated_of_isFragment hn
    have hout : ¬ d.LiesIn m n := by
      rintro (heq | hwithin)
      · exact hm heq
      · obtain ⟨k, hk, -⟩ := isWithin_iff_exists_liesIn.1 hwithin
        have hmem := h.parent?_eq_some_iff.1 hk
        rw [hempty] at hmem
        cases hmem
    rw [discardIfDrained_of_empty hn hempty]
    refine node?_eq_iff_views.2 ⟨h.data?_discard hallocated hout, h.parent?_discard hallocated hout, ?_⟩
    rw [h.children_discard hallocated hout, List.erase_of_not_mem]
    intro hmem
    cases htop.symm.trans (h.parent?_eq_some_iff.2 hmem)
  · rw [discardIfDrained_of_filled hempty]

end WellFormed

/-- Outside of the set all is the same. -/
structure SameBut (S : NodeId → Prop) (d d' : Document) : Prop where
  wellFormed : d'.WellFormed
  fresh : d'.fresh = d.fresh
  data? : ∀ m, ¬ S m → d'.data? m = d.data? m
  parent? : ∀ m, ¬ S m → d'.parent? m = d.parent? m
  children : ∀ m, ¬ S m → d'.children m = d.children m

theorem WellFormed.sameBut_discard (h : d.WellFormed) (hn : d.isAllocated n)
    (hbelow : ∀ m, d.LiesIn m n → S m) (hup : ∀ p, d.parent? n = some p → S p) :
    d.SameBut S (d.discard n) := by
  have hout {m : NodeId} (hm : ¬ S m) : ¬ d.LiesIn m n := fun hlies => hm (hbelow m hlies)
  refine ⟨h.discard hn, fresh_discard d n, fun m hm => h.data?_discard hn (hout hm),
    fun m hm => h.parent?_discard hn (hout hm), fun m hm => ?_⟩
  rw [h.children_discard hn (hout hm), List.erase_of_not_mem]
  exact fun hmem => hm (hup m (h.parent?_eq_some_iff.2 hmem))

end DomQuery.Document
