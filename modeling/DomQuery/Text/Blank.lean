/-!
Blank characters. Two classes are in use: the blanks of Unicode, which selectors and the emptiness
of a text go by, and the five ASCII blanks that separate the words of a `class` attribute.
-/
namespace DomQuery.Text

def isBlank (c : Char) : Bool :=
  c == ' ' || ('\t' ≤ c && c ≤ '\r') || c == '\x85' || c == '\xa0' || c == '\u1680' ||
    ('\u2000' ≤ c && c ≤ '\u200a') || c == '\u2028' || c == '\u2029' || c == '\u202f' ||
    c == '\u205f' || c == '\u3000'

/-- Space, tab, line feed, form feed and carriage return; not the vertical tab. -/
def isAsciiBlank (c : Char) : Bool :=
  c == ' ' || c == '\t' || c == '\n' || c == '\x0c' || c == '\r'

def trimLeft (cs : List Char) : List Char := cs.dropWhile isBlank

def trimRight (cs : List Char) : List Char := (cs.reverse.dropWhile isBlank).reverse

def trim (cs : List Char) : List Char := trimRight (trimLeft cs)

def isAllBlank (s : String) : Bool := s.toList.all isBlank

def runs (separates : Char → Bool) : List Char → List (List Char)
  | [] => []
  | c :: rest =>
    if separates c then runs separates rest
    else match rest with
      | [] => [[c]]
      | d :: _ =>
        if separates d then [c] :: runs separates rest
        else match runs separates rest with
          | [] => [[c]]
          | run :: more => (c :: run) :: more

def words (s : String) : List String := (runs isAsciiBlank s.toList).map String.ofList

end DomQuery.Text
