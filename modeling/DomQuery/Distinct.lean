/-!
Lists without repetitions.
-/
namespace DomQuery
variable {α : Type} [DecidableEq α]

def distinctFrom (seen : List α) : List α → List α
  | [] => []
  | x :: rest =>
    if x ∈ seen then distinctFrom seen rest else x :: distinctFrom (x :: seen) rest

def distinct (xs : List α) : List α := distinctFrom [] xs

theorem mem_distinctFrom {seen xs : List α} {x : α} :
    x ∈ distinctFrom seen xs ↔ x ∈ xs ∧ x ∉ seen := by
  induction xs generalizing seen with
  | nil => simp [distinctFrom]
  | cons y rest ih =>
    rw [distinctFrom]
    split
    · rename_i h
      simp only [ih, List.mem_cons]
      exact ⟨fun hx => ⟨.inr hx.1, hx.2⟩, fun hx => ⟨hx.1.resolve_left (fun e => hx.2 (e ▸ h)), hx.2⟩⟩
    · rename_i h
      by_cases hx : x = y
      · simp [hx, h]
      · simp [ih, hx]

theorem mem_distinct {xs : List α} {x : α} : x ∈ distinct xs ↔ x ∈ xs := by
  simp [distinct, mem_distinctFrom]

theorem nodup_distinctFrom {seen xs : List α} : (distinctFrom seen xs).Nodup := by
  induction xs generalizing seen with
  | nil => simp [distinctFrom]
  | cons y rest ih =>
    rw [distinctFrom]
    split
    · exact ih
    · simp [mem_distinctFrom, ih]

theorem nodup_distinct {xs : List α} : (distinct xs).Nodup := nodup_distinctFrom

end DomQuery
