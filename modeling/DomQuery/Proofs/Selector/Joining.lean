import DomQuery.Proofs.Selector.Separators

/-!
Selectors joined by commas. Behind a text that leaves nothing open a comma cuts, so that the chains on
its two sides are read on their own. A fault stops the reading wherever it lies, and what is reported is
the whole selector.
-/
namespace DomQuery.Selector

variable {n : Nesting} {s : Splitter} {cs ds text piece : List Char} {f : Fault} {depth : Nat}
  {inner : List Char → Except Fault Selector} {doubleColon bareSigil : Bool} {name : List Char}
  {parts parts' : Compound} {ls : List Lexeme}

/-! The splitter at the end of a text. -/

def Nesting.Enclosed (n : Nesting) : Prop := n.opened = [] → n.string = none

theorem Nesting.Enclosed.after (h : n.Enclosed) (c : Char) : (n.after c).Enclosed := by
  obtain ⟨opened, string⟩ := n
  intro houter
  cases string with
  | some q =>
    have hopened : opened ≠ [] := fun heq => nomatch h heq
    simp only [Nesting.after] at houter
    split at houter <;> exact absurd houter hopened
  | none =>
    simp only [Nesting.after] at houter ⊢
    grind

end DomQuery.Selector
