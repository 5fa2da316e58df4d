/-!
Named values in the order in which the names first came up.
-/
namespace DomQuery

abbrev Entries (α : Type) := List (String × α)

namespace Entries
variable {α : Type}

def get? : Entries α → String → Option α
  | [], _ => none
  | (key, value) :: rest, name => if key = name then some value else get? rest name

/-- Replaces the value where the name stands; a new name goes to the end. -/
def set (entries : Entries α) (name : String) (value : α) : Entries α :=
  match entries with
  | [] => [(name, value)]
  | (key, old) :: rest =>
    if key = name then (key, value) :: rest else (key, old) :: set rest name value

def remove (entries : Entries α) (name : String) : Entries α :=
  entries.filter (·.1 ≠ name)

def ofPairs (pairs : List (String × α)) : Entries α :=
  pairs.foldl (fun entries (name, value) => entries.set name value) []

theorem get?_cons (key : String) (value : α) (rest : Entries α) (name : String) :
    get? ((key, value) :: rest) name = if key = name then some value else get? rest name := rfl

theorem get?_set (entries : Entries α) (name other : String) (value : α) :
    (entries.set name value).get? other = if name = other then some value else entries.get? other := by
  induction entries with
  | nil => rfl
  | cons entry rest ih =>
    obtain ⟨key, old⟩ := entry
    rw [set]
    split
    · rename_i h
      subst h
      simp only [get?_cons]
      split <;> rfl
    · rename_i h
      simp only [get?_cons, ih]
      split
      · rename_i hk
        rw [if_neg (fun hn => h (hk.trans hn.symm))]
      · rfl

end Entries
end DomQuery
