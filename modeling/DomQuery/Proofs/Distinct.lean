import DomQuery.Distinct
import Mathlib.Data.List.Basic

/-!
First occurrences. What is kept of a list stands in the order in which it first comes up, and members
that were dropped before make no difference to what is kept later. A list in a strict order has no
repetitions, and its members determine it.
-/
namespace DomQuery
section Strict
variable {α : Type} {R : α → α → Prop} {xs ys : List α}

theorem nodup_of_pairwise (hR : ∀ a b, R a b → ¬ R b a) (hxs : xs.Pairwise R) : xs.Nodup := by
  refine hxs.imp ?_
  rintro a b hab rfl
  exact hR a a hab hab

theorem eq_of_pairwise (hR : ∀ a b, R a b → ¬ R b a) (hxs : xs.Pairwise R) (hys : ys.Pairwise R)
    (hmem : ∀ a, a ∈ xs ↔ a ∈ ys) : xs = ys := by
  refine List.Perm.eq_of_pairwise (fun a b _ _ hab hba => absurd hba (hR a b hab)) hxs hys ?_
  exact (List.perm_ext_iff_of_nodup (nodup_of_pairwise hR hxs) (nodup_of_pairwise hR hys)).2 hmem

end Strict

variable {α β : Type} [DecidableEq α] [DecidableEq β]

theorem distinctFrom_congr {seen known : List α} (h : ∀ x, x ∈ seen ↔ x ∈ known) (xs : List α) :
    distinctFrom seen xs = distinctFrom known xs := by
  induction xs generalizing seen known with
  | nil => rfl
  | cons x rest ih =>
    have hx : ∀ y, y ∈ x :: seen ↔ y ∈ x :: known := fun y => by simp [h]
    rw [distinctFrom, distinctFrom, ih h, ih hx]
    simp only [h]

theorem distinctFrom_cons (x : α) (seen xs : List α) :
    distinctFrom (x :: seen) xs = (distinctFrom seen xs).filter (· ≠ x) := by
  induction xs generalizing seen with
  | nil => rfl
  | cons y rest ih =>
    have hswap : distinctFrom (y :: x :: seen) rest = distinctFrom (x :: y :: seen) rest :=
      distinctFrom_congr (fun z => by simp [or_left_comm]) rest
    rw [distinctFrom, distinctFrom, hswap, ih, ih]
    by_cases hy : y ∈ seen
    · simp [hy]
    · by_cases hx : y = x
      · subst hx
        simp [hy, ih, List.filter_filter]
      · simp [hy, hx]

theorem distinct_of_nodup {xs : List α} (h : xs.Nodup) : distinct xs = xs := by
  induction xs with
  | nil => rfl
  | cons x rest ih =>
    obtain ⟨hx, hrest⟩ := List.nodup_cons.1 h
    have hkept : (distinct rest).filter (· ≠ x) = distinct rest :=
      List.filter_eq_self.2 fun y hy => decide_eq_true fun heq => hx (heq ▸ mem_distinct.1 hy)
    rw [distinct, distinctFrom, if_neg List.not_mem_nil, distinctFrom_cons, ← distinct, hkept, ih hrest]

theorem distinctFrom_sublist {seen xs : List α} : (distinctFrom seen xs).Sublist xs := by
  induction xs generalizing seen with
  | nil => exact List.Sublist.refl _
  | cons x rest ih =>
    rw [distinctFrom]
    split
    · exact .cons x ih
    · exact .cons_cons x ih

theorem distinct_sublist {xs : List α} : (distinct xs).Sublist xs := distinctFrom_sublist

theorem pairwise_idxOf_distinctFrom (before xs : List α) :
    (distinctFrom before xs).Pairwise
      fun x y => (before ++ xs).idxOf x < (before ++ xs).idxOf y := by
  induction xs generalizing before with
  | nil => exact List.Pairwise.nil
  | cons x rest ih =>
    have hstep : before ++ x :: rest = (before ++ [x]) ++ rest := by simp
    rw [distinctFrom, hstep]
    split
    · rename_i hx
      have hmem (y : α) : y ∈ before ↔ y ∈ before ++ [x] := by
        rw [List.mem_append, List.mem_singleton]
        exact ⟨.inl, fun hy => hy.elim id fun he => he ▸ hx⟩
      rw [distinctFrom_congr hmem]
      exact ih (before ++ [x])
    · have hmem (y : α) : y ∈ x :: before ↔ y ∈ before ++ [x] := by simp [or_comm]
      rw [distinctFrom_congr hmem]
      refine List.pairwise_cons.2 ⟨fun y hy => ?_, ih (before ++ [x])⟩
      -- `x` stands right behind `before`, and `y` comes up later
      have hnot := (mem_distinctFrom.1 hy).2
      have hlt : (before ++ [x]).idxOf x < (before ++ [x]).length :=
        List.idxOf_lt_length_of_mem (by simp)
      rw [List.idxOf_append_of_mem (by simp), List.idxOf_append_of_notMem hnot]
      omega

theorem pairwise_idxOf_distinct (xs : List α) :
    (distinct xs).Pairwise fun x y => xs.idxOf x < xs.idxOf y :=
  pairwise_idxOf_distinctFrom [] xs

theorem distinctFrom_map_filter_distinctFrom (f : α → β) (p : α → Bool) {seen : List α}
    {known : List β} (h : ∀ x ∈ seen, p x → f x ∈ known) (xs : List α) :
    distinctFrom known (((distinctFrom seen xs).filter p).map f) =
      distinctFrom known ((xs.filter p).map f) := by
  induction xs generalizing seen known with
  | nil => rfl
  | cons x rest ih =>
    have hgrown (known' : List β) (hsub : ∀ y ∈ known, y ∈ known') (hx : p x → f x ∈ known') :
        ∀ y ∈ x :: seen, p y → f y ∈ known' := by
      intro y hy hp
      cases List.mem_cons.1 hy with
      | inl heq =>
        subst heq
        exact hx hp
      | inr hy => exact hsub _ (h y hy hp)
    rw [distinctFrom]
    by_cases hp : p x
    · by_cases hx : x ∈ seen
      · rw [if_pos hx, List.filter_cons_of_pos hp, List.map_cons, distinctFrom,
          if_pos (h x hx hp)]
        exact ih h
      · rw [if_neg hx, List.filter_cons_of_pos hp, List.filter_cons_of_pos hp, List.map_cons,
          List.map_cons, distinctFrom, distinctFrom]
        by_cases hf : f x ∈ known
        · rw [if_pos hf, if_pos hf]
          exact ih (hgrown known (fun _ hy => hy) fun _ => hf)
        · rw [if_neg hf, if_neg hf]
          have hgrow := hgrown (f x :: known) (fun _ => List.mem_cons_of_mem _) fun _ => by simp
          rw [ih hgrow]
    · rw [List.filter_cons_of_neg hp]
      by_cases hx : x ∈ seen
      · rw [if_pos hx]
        exact ih h
      · rw [if_neg hx, List.filter_cons_of_neg hp]
        exact ih (hgrown known (fun _ hy => hy) fun hp' => absurd hp' hp)

theorem distinct_map_filter_distinct (f : α → β) (p : α → Bool) (xs : List α) :
    distinct (((distinct xs).filter p).map f) = distinct ((xs.filter p).map f) :=
  distinctFrom_map_filter_distinctFrom f p (by simp) xs

theorem filter_distinct (p : α → Bool) (xs : List α) :
    (distinct xs).filter p = distinct (xs.filter p) := by
  rw [← distinct_of_nodup (nodup_distinct.filter p)]
  simpa using distinct_map_filter_distinct id p xs

theorem distinctFrom_distinct (seen xs : List α) :
    distinctFrom seen (distinct xs) = distinctFrom seen xs := by
  have hseen : ∀ x ∈ ([] : List α), true → id x ∈ seen := fun _ hx => absurd hx List.not_mem_nil
  have h := distinctFrom_map_filter_distinctFrom id (fun _ => true) hseen xs
  rwa [List.filter_true, List.filter_true, List.map_id, List.map_id] at h

theorem distinctFrom_append (seen xs ys : List α) :
    distinctFrom seen (xs ++ ys) = distinctFrom seen xs ++ distinctFrom (xs ++ seen) ys := by
  induction xs generalizing seen with
  | nil => rfl
  | cons x rest ih =>
    rw [List.cons_append, distinctFrom, distinctFrom]
    split
    · rename_i hx
      have hmem (y : α) : y ∈ rest ++ seen ↔ y ∈ x :: rest ++ seen := by
        rw [List.cons_append, List.mem_cons]
        exact ⟨.inr, fun hy => hy.elim (fun he => List.mem_append_right _ (he ▸ hx)) id⟩
      rw [ih, distinctFrom_congr hmem]
    · have hmem (y : α) : y ∈ rest ++ x :: seen ↔ y ∈ x :: rest ++ seen := by
        simp only [List.cons_append, List.mem_append, List.mem_cons, or_left_comm]
      rw [ih, distinctFrom_congr hmem]
      rfl

omit [DecidableEq β] in
theorem distinct_flatMap_distinct (f : β → List α) (ys : List β) :
    distinct (ys.flatMap fun y => distinct (f y)) = distinct (ys.flatMap f) := by
  suffices h : ∀ seen, distinctFrom seen (ys.flatMap fun y => distinct (f y)) =
      distinctFrom seen (ys.flatMap f) from h []
  induction ys with
  | nil => exact fun _ => rfl
  | cons y rest ih =>
    intro seen
    rw [List.flatMap_cons, List.flatMap_cons, distinctFrom_append, distinctFrom_append,
      distinctFrom_distinct, ih]
    have hmem (x : α) : x ∈ distinct (f y) ++ seen ↔ x ∈ f y ++ seen := by
      simp only [List.mem_append, mem_distinct]
    rw [distinctFrom_congr hmem]

end DomQuery
