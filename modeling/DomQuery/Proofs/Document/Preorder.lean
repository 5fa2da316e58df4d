import DomQuery.Proofs.Document.WellFormed
import Mathlib.Data.List.Flatten

/-!
Subtrees in document order. A subtree lists its root and then the subtrees of the children; each
node comes up once, and one that comes up earlier precedes the other in the document.
-/
namespace DomQuery.Document
variable {d : Document} {n m p a b c x y : NodeId} {bound : Nat}

/-- Document order: ancestors first, and else as the children of a common ancestor stand. -/
inductive Precedes (d : Document) (a b : NodeId) : Prop where
  | above : d.isWithin b a → d.Precedes a b
  | beside {p x y : NodeId} : [x, y].Sublist (d.children p) → d.LiesIn a x → d.LiesIn b y →
    d.Precedes a b

theorem foldr_onto {α β : Type} {f : α → List β → List β} (hf : ∀ x rest, f x rest = f x [] ++ rest)
    (xs : List α) (rest : List β) : xs.foldr f rest = xs.flatMap (f · []) ++ rest := by
  induction xs with
  | nil => rfl
  | cons x xs ih => rw [List.foldr_cons, hf, ih, List.flatMap_cons, List.append_assoc]

theorem subtreeOnto_append (rest : List NodeId) :
    d.subtreeOnto bound n rest = d.subtreeOnto bound n [] ++ rest := by
  induction bound generalizing n rest with
  | zero => rfl
  | succ bound ih =>
    rw [subtreeOnto, subtreeOnto, foldr_onto fun _ => ih, foldr_onto fun _ => ih, List.append_nil]
    rfl

theorem subtreeOnto_succ :
    d.subtreeOnto (bound + 1) n [] = n :: (d.children n).flatMap (d.subtreeOnto bound · []) := by
  rw [subtreeOnto, foldr_onto fun _ => subtreeOnto_append, List.append_nil]

theorem pairwise_sublist (xs : List NodeId) : xs.Pairwise fun x y => [x, y].Sublist xs :=
  List.pairwise_iff_forall_sublist.2 fun h => h

namespace WellFormed
variable (h : d.WellFormed)
include h

theorem length_ancestors_of_mem_children (hc : c ∈ d.children n) :
    (d.ancestors c).length = (d.ancestors n).length + 1 := by
  rw [h.ancestors_of_parent? (h.parent?_eq_some_iff.2 hc), List.length_cons]

/-- A walk down that may go as deep as there are slots left reaches everything. -/
theorem subtreeOnto_eq (hpos : 0 < d.slots.size)
    (hbound : d.slots.size ≤ bound + (d.ancestors n).length) :
    d.subtreeOnto bound n [] = d.subtree n := by
  induction n using h.descend generalizing bound with
  | step n ih =>
    have hdepth := h.length_ancestors_lt (n := n) hpos
    obtain ⟨size, hsize⟩ := Nat.exists_eq_add_one.2 hpos
    obtain ⟨bound, rfl⟩ : ∃ k, bound = k + 1 := Nat.exists_eq_add_one.2 (by omega)
    rw [subtree, hsize, subtreeOnto_succ, subtreeOnto_succ]
    congr 1
    refine List.flatMap_congr fun c hc => ?_
    have hlen := h.length_ancestors_of_mem_children hc
    calc
      d.subtreeOnto bound c [] = d.subtree c := ih c hc (by omega)
      _ = d.subtreeOnto size c [] := (ih c hc (by omega)).symm

theorem subtree_eq (hpos : 0 < d.slots.size) :
    d.subtree n = n :: (d.children n).flatMap d.subtree := by
  obtain ⟨size, hsize⟩ := Nat.exists_eq_add_one.2 hpos
  rw [subtree, hsize, subtreeOnto_succ]
  congr 1
  refine List.flatMap_congr fun c hc => ?_
  have hlen := h.length_ancestors_of_mem_children hc
  exact h.subtreeOnto_eq hpos (by omega)

theorem mem_subtree_iff (hpos : 0 < d.slots.size) : m ∈ d.subtree n ↔ d.LiesIn m n := by
  induction n using h.descend with
  | step n ih =>
    rw [h.subtree_eq hpos, List.mem_cons, List.mem_flatMap, LiesIn, isWithin_iff_exists_liesIn]
    simp only [h.parent?_eq_some_iff]
    refine or_congr_right (exists_congr fun c => and_congr_right fun hc => ih c hc)

theorem descendants_eq (hpos : 0 < d.slots.size) :
    d.descendants n = (d.children n).flatMap d.subtree := by
  rw [descendants, h.subtree_eq hpos, List.tail_cons]

theorem mem_descendants_iff : m ∈ d.descendants n ↔ d.isWithin m n := by
  by_cases hpos : 0 < d.slots.size
  · rw [h.descendants_eq hpos, List.mem_flatMap, isWithin_iff_exists_liesIn]
    simp only [h.parent?_eq_some_iff, h.mem_subtree_iff hpos]
  · refine iff_of_false ?_ fun hm => hpos (Nat.zero_lt_of_lt (h.lt_size_of_isWithin hm))
    rw [descendants, subtree, Nat.eq_zero_of_not_pos hpos]
    exact List.not_mem_nil

/-! Order. -/

theorem eq_of_liesIn_children (hx : x ∈ d.children p) (hy : y ∈ d.children p)
    (hax : d.LiesIn a x) (hay : d.LiesIn a y) : x = y := by
  have hxp := h.parent?_eq_some_iff.2 hx
  have hyp := h.parent?_eq_some_iff.2 hy
  have apart {u v : NodeId} (hu : d.parent? u = some p) (hv : d.parent? v = some p)
      (huv : d.LiesIn u v) : u = v := by
    refine huv.resolve_right fun hw => ?_
    have hp := (isWithin_iff_of_parent? hu).1 hw
    have hpv : d.LiesIn p v := hp.imp id id
    exact h.not_isWithin_self v (isWithin_iff_of_parent? hv |>.2 (hpv.imp id id))
  cases liesIn_total hax hay with
  | inl hxy => exact apart hxp hyp hxy
  | inr hyx => exact (apart hyp hxp hyx).symm

theorem ne_of_sublist_children (hxy : [x, y].Sublist (d.children p)) : x ≠ y := by
  have hpair := (h.nodup_children p).sublist hxy
  simpa using hpair

theorem nodup_subtree (n : NodeId) : (d.subtree n).Nodup := by
  by_cases hpos : 0 < d.slots.size
  · induction n using h.descend with
    | step n ih =>
      rw [h.subtree_eq hpos, List.nodup_cons, List.nodup_flatMap]
      refine ⟨?_, ih, ?_⟩
      · rw [← h.descendants_eq hpos, h.mem_descendants_iff]
        exact h.not_isWithin_self n
      · refine (pairwise_sublist _).imp fun {x y} hxy a hax hay => ?_
        have hx : x ∈ d.children n := hxy.subset (by simp)
        have hy : y ∈ d.children n := hxy.subset (by simp)
        exact h.ne_of_sublist_children hxy (h.eq_of_liesIn_children hx hy
          ((h.mem_subtree_iff hpos).1 hax) ((h.mem_subtree_iff hpos).1 hay))
  · rw [subtree, Nat.eq_zero_of_not_pos hpos]
    exact List.nodup_nil

theorem pairwise_precedes_subtree (n : NodeId) : (d.subtree n).Pairwise d.Precedes := by
  by_cases hpos : 0 < d.slots.size
  · induction n using h.descend with
    | step n ih =>
      rw [h.subtree_eq hpos, List.pairwise_cons, List.pairwise_flatMap]
      refine ⟨?_, ih, ?_⟩
      · intro m hm
        rw [← h.descendants_eq hpos, h.mem_descendants_iff] at hm
        exact .above hm
      · refine (pairwise_sublist _).imp fun {x y} hxy a hax b hby => ?_
        exact .beside hxy ((h.mem_subtree_iff hpos).1 hax) ((h.mem_subtree_iff hpos).1 hby)
  · rw [subtree, Nat.eq_zero_of_not_pos hpos]
    exact List.Pairwise.nil

end WellFormed
end DomQuery.Document
