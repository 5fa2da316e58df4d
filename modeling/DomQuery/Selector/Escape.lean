import DomQuery.Text.Blank

/-!
Names and strings as they are written in a selector. A backslash takes the next character as it is;
a lone backslash at the end stands for nothing.
-/
namespace DomQuery.Selector
open Text

/-- ASCII letters and digits, hyphen and underscore, and all beyond ASCII that is not blank. -/
def isNameChar (c : Char) : Bool :=
  c.isAlphanum || c == '-' || c == '_' || (128 ≤ c.toNat && !isBlank c)

def unescape : List Char → List Char
  | [] => []
  | ['\\'] => []
  | '\\' :: c :: rest => c :: unescape rest
  | c :: rest => c :: unescape rest

def escapeChar (c : Char) : List Char := if isNameChar c then [c] else ['\\', c]

def escapeName (name : List Char) : List Char := name.flatMap escapeChar

/-- A tag name has no sigil, so a digit must not come first. -/
def escapeTag : List Char → List Char
  | [] => []
  | c :: rest => (if c.isDigit then ['\\', c] else escapeChar c) ++ escapeName rest

def escapeQuoted : List Char → List Char
  | [] => []
  | c :: rest => (if c == '\\' || c == '"' then ['\\', c] else [c]) ++ escapeQuoted rest

def quote (text : List Char) : List Char := '"' :: escapeQuoted text ++ ['"']

def unquote? : List Char → Option (List Char)
  | [] => none
  | q :: rest =>
    if q == '"' || q == '\'' then
      match rest.reverse with
      | [] => none
      | last :: inner => if last == q then some (unescape inner.reverse) else none
    else none

end DomQuery.Selector
