import DomQuery.Proofs.Document.Slots

/-!
Adding nodes. New nodes are linked among themselves only, so a document that grows stays well formed
as soon as the new part is.
-/
namespace DomQuery

namespace Document
variable {d d' d'' : Document} {n m p q : NodeId} {ns : List NodeId}

/-- All slots are as they were, and there may be more of them. -/
structure Grows (d d' : Document) : Prop where
  node? : ∀ n < d.fresh, d'.node? n = d.node? n
  fresh_le : d.fresh ≤ d'.fresh
  roots : d'.roots = d.roots
  /-- No link joins an old node and a new one. -/
  apart : ∀ n p, d'.parent? n = some p → (d.fresh ≤ n ↔ d.fresh ≤ p)

namespace Grows

theorem toExtends (h : d.Grows d') : d.Extends d' where
  data? n hn := by rw [data?, data?, h.node? n hn]
  fresh_le := h.fresh_le
  roots := h.roots

theorem parent?_of_lt (h : d.Grows d') (hn : n < d.fresh) : d'.parent? n = d.parent? n := by
  rw [Document.parent?, Document.parent?, h.node? n hn]

theorem children_of_lt (h : d.Grows d') (hn : n < d.fresh) : d'.children n = d.children n := by
  rw [Document.children, Document.children, h.node? n hn]

theorem trans (h : d.Grows d') (h' : d'.Grows d'') : d.Grows d'' where
  node? n hn := (h'.node? n (Nat.lt_of_lt_of_le hn h.fresh_le)).trans (h.node? n hn)
  fresh_le := Nat.le_trans h.fresh_le h'.fresh_le
  roots := h'.roots.trans h.roots
  apart n p hp := by
    have hle := h.fresh_le
    have hnew := h'.apart n p hp
    by_cases hn : n < d'.fresh
    · rw [h'.parent?_of_lt hn] at hp
      exact h.apart n p hp
    · grind

theorem le_of_liesIn (h : d.Grows d') (hm : d'.LiesIn m n) (hn : d.fresh ≤ n) : d.fresh ≤ m := by
  induction liesIn_iff.1 hm using Relation.ReflTransGen.head_induction_on with
  | refl => exact hn
  | @head a b hstep hreach ih => exact (h.apart a b hstep).2 (ih (liesIn_iff.2 hreach))

theorem lt_of_isWithin (h : d.Grows d') (hn : n < d.fresh) (hm : d'.isWithin n m) :
    m < d.fresh ∧ d.isWithin n m := by
  induction Document.isWithin_iff.1 hm using Relation.TransGen.head_induction_on with
  | @single a hstep =>
    have hm := (h.apart a m hstep).not.1 (Nat.not_le_of_lt hn)
    rw [Climb.Step, h.parent?_of_lt hn] at hstep
    exact ⟨Nat.lt_of_not_le hm, isWithin_of_parent? hstep⟩
  | @head a b hstep hreach ih =>
    have hb := (h.apart a b hstep).not.1 (Nat.not_le_of_lt hn)
    obtain ⟨hlt, hwithin⟩ := ih (Nat.lt_of_not_le hb) (Document.isWithin_iff.2 hreach)
    rw [Climb.Step, h.parent?_of_lt hn] at hstep
    exact ⟨hlt, isWithin_trans (isWithin_of_parent? hstep) hwithin⟩

theorem isWithin_iff (h : d.Grows d') (hn : n < d.fresh) : d'.isWithin n m ↔ d.isWithin n m := by
  refine ⟨fun hm => (h.lt_of_isWithin hn hm).2, fun hm => ?_⟩
  rw [Document.isWithin_iff] at hm ⊢
  refine Relation.TransGen.mono (fun a b hab => ?_) n m hm
  exact (h.parent?_of_lt (lt_fresh (isAllocated_of_parent? hab))).trans hab

theorem liesIn (h : d.Grows d') (hm : d.LiesIn n m) : d'.LiesIn n m := by
  refine hm.imp_right fun hwithin => ?_
  obtain ⟨p, hp⟩ := exists_parent?_of_isWithin hwithin
  exact (h.isWithin_iff (lt_fresh (isAllocated_of_parent? hp))).2 hwithin

end Grows

theorem WellFormed.grow (h : d.WellFormed) (hd : d.Grows d')
    (hlinks : ∀ n p, d.fresh ≤ p → (d'.parent? n = some p ↔ n ∈ d'.children p))
    (hnodup : ∀ p, d.fresh ≤ p → (d'.children p).Nodup)
    (hacyclic : ∀ n, d.fresh ≤ n → ¬ d'.isWithin n n)
    (hleaf : ∀ n, d.fresh ≤ n → d'.isLeaf n → d'.children n = []) : d'.WellFormed where
  parent?_eq_some_iff {n p} := by
    by_cases hp : d.fresh ≤ p
    · exact hlinks n p hp
    have hlt := Nat.lt_of_not_le hp
    rw [hd.children_of_lt hlt, ← h.parent?_eq_some_iff]
    constructor
    · intro hn
      rwa [hd.parent?_of_lt (Nat.lt_of_not_le ((hd.apart n p hn).not.2 hp))] at hn
    · intro hn
      rwa [hd.parent?_of_lt (lt_fresh (isAllocated_of_parent? hn))]
  nodup_children p := by
    by_cases hp : d.fresh ≤ p
    · exact hnodup p hp
    · rw [hd.children_of_lt (Nat.lt_of_not_le hp)]
      exact h.nodup_children p
  not_isWithin_self n := by
    by_cases hn : d.fresh ≤ n
    · exact hacyclic n hn
    · exact fun hself => h.not_isWithin_self n (hd.lt_of_isWithin (Nat.lt_of_not_le hn) hself).2
  children_of_isLeaf {n} hn := by
    by_cases hlt : n < d.fresh
    · rw [isLeaf_congr (hd.toExtends.data? n hlt)] at hn
      rw [hd.children_of_lt hlt, h.children_of_isLeaf hn]
    · exact hleaf n (Nat.le_of_not_lt hlt) hn

/-! Steps that add nodes. -/

/-- The document has grown, and the nodes `ns` are new ones. -/
structure Adds (d d' : Document) (ns : List NodeId) : Prop where
  grows : d.Grows d'
  wellFormed : d'.WellFormed
  of_mem : ∀ n ∈ ns, d.fresh ≤ n ∧ d'.isAllocated n

theorem Grows.refl (h : d.WellFormed) : d.Grows d where
  node? _ _ := rfl
  fresh_le := Nat.le_refl _
  roots := rfl
  apart _ _ hp := iff_of_false (Nat.not_le_of_lt (lt_fresh (isAllocated_of_parent? hp)))
    (Nat.not_le_of_lt (lt_fresh (h.isAllocated_parent hp)))

theorem Adds.nil (h : d.WellFormed) : d.Adds d [] := ⟨.refl h, h, nofun⟩

theorem Adds.append {ms : List NodeId} (h : d.Adds d' ns) (h' : d'.Adds d'' ms) :
    d.Adds d'' (ns ++ ms) where
  grows := h.grows.trans h'.grows
  wellFormed := h'.wellFormed
  of_mem n hn := by
    cases List.mem_append.1 hn with
    | inl hn => exact (h.of_mem n hn).imp_right h'.grows.toExtends.isAllocated
    | inr hn => exact (h'.of_mem n hn).imp_left h.grows.fresh_le.trans

end Document
end DomQuery
