import DomQuery.Proofs.Selector.Recovery

/-!
The canonical text of a tree that was read from some text. Reading is lenient, and what it keeps of a
text that it does not understand can change its meaning in the canonical text: the tree is read back
exactly when it is stable.
-/
namespace DomQuery.Selector
open Text

variable {text : String} {selector : Selector}

theorem parse_eq_ok_iff : parse text = .ok selector ↔ read text.toList = .ok selector := by
  rw [parse]
  split
  · rename_i h
    rw [h]
    simp
  · rename_i h
    rw [h]
    simp

theorem parse_of_scans {texts : List (List Char)} (htexts : chainTexts text.toList = texts)
    (h : List.Forall₂ (fun text chain => Scans true [] false text (chainItems chain)) texts
      selector) : parse text = .ok selector := by
  rw [parse_eq_ok_iff, read_eq_ok_iff, htexts]
  exact h.imp fun text chain => readChain_of_scans

theorem parse_render_eq_ok_iff (h : parse text = .ok selector) :
    parse (Selector.render selector) = .ok selector ↔ Selector.Stable selector := by
  have hlegible := legible_of_read (parse_eq_ok_iff.1 h)
  rw [parse_eq_ok_iff, Selector.render, String.toList_ofList]
  exact ⟨stable_of_read hlegible, read_chars hlegible⟩

/-- What could not be understood stays as it is, but sigils without names are dropped, and so are
empty chains and a backslash at the end. -/
def lenient : Selector := [.compound [.unmatchable "%"], .compound [.tag "a"]]

theorem parse_render_lenient :
    parse "..%,,a\\" = .ok lenient ∧ parse (Selector.render lenient) = .ok lenient := by
  have h : parse "..%,,a\\" = .ok lenient := by
    have htexts : chainTexts "..%,,a\\".toList = [['.', '.', '%'], ['a', '\\']] := by decide
    have hsigil {fresh : Bool} {more : List Char} (hmore : nameSpan more = ([], more)) :
        Takes fresh ['.'] .bareSigil more := .bareSigil (.inl rfl) hmore rfl
    have hjunk : Takes false ['%'] (.part (.unmatchable "%")) [] :=
      .junk (by decide) (by decide) (by decide) nofun nofun
    have htag : Takes true ['a', '\\'] (.part (.tag "a")) [] := .tag rfl (by decide) (by decide)
    refine parse_of_scans htexts (.cons ?_ (.cons ?_ .nil))
    · exact .bareSigil (hsigil rfl) (.bareSigil (hsigil rfl) (.part hjunk rfl (.done rfl)))
    · exact .part htag rfl (.done rfl)
  exact ⟨h, (parse_render_eq_ok_iff h).2 (by decide)⟩

def spaced : Selector := [.compound [.className "a "]]

/-- The blank at the end of the canonical text is trimmed away, and the backslash before it then
stands for nothing. -/
theorem parse_render_spaced :
    parse ".a\\ ." = .ok spaced ∧ parse (Selector.render spaced) ≠ .ok spaced := by
  constructor
  · have htexts : chainTexts ".a\\ .".toList = [['.', 'a', '\\', ' ', '.']] := by decide
    have hclass : Takes true ['.', 'a', '\\', ' '] (.part (.className "a ")) ['.'] :=
      .className rfl (by decide)
    have hsigil : Takes false ['.'] .bareSigil [] := .bareSigil (.inl rfl) rfl rfl
    refine parse_of_scans htexts (.cons ?_ .nil)
    exact .part hclass rfl (.bareSigil hsigil (.done rfl))
  · have htexts : chainTexts (Selector.render spaced).toList = [['.', 'a', '\\']] := by decide
    have hclass : Takes true ['.', 'a', '\\'] (.part (.className "a")) [] :=
      .className rfl (by decide)
    have hread : parse (Selector.render spaced) = .ok [.compound [.className "a"]] :=
      parse_of_scans htexts (.cons (.part hclass rfl (.done rfl)) .nil)
    rw [hread]
    intro h
    simp [spaced] at h

end DomQuery.Selector
