import DomQuery.Text.Lowercase.Table

/-!
Lower case for the whole of Unicode, and comparison that ignores case. A capital sigma becomes `ς`
at the end of a word and `σ` elsewhere; `İ` is the one letter whose lower-case form has two
characters.
-/
namespace DomQuery.Text

def isAscii (s : String) : Bool := s.toList.all (·.toNat < 128)

def asciiLowercase (s : String) : String := String.ofList (s.toList.map Char.toLower)

namespace Lowercase

def shifted (code : Nat) (shift : Int) : Char := Char.ofNat (code + shift).toNat

def simple (c : Char) : List Char :=
  if c.toNat < 128 then [c.toLower]
  else if c == '\u0130' then ['i', '\u0307']
  else match caseRanges.find? (·.covers c.toNat) with
    | some r => [shifted c.toNat r.shift]
    | none => [c]

def inRanges (ranges : List (Nat × Nat)) (c : Char) : Bool :=
  ranges.any fun (first, last) => first ≤ c.toNat && c.toNat ≤ last

def facesCased (neighbours : List Char) : Bool :=
  match neighbours.dropWhile (inRanges ignorableRanges) with
  | [] => false
  | c :: _ => inRanges casedRanges c

/-- `before` holds the characters to the left, nearest first. -/
def lowered (before : List Char) : List Char → List Char
  | [] => []
  | c :: rest =>
    (if c == 'Σ' then
      [if facesCased before && !facesCased rest then 'ς' else 'σ']
    else simple c) ++ lowered (c :: before) rest

end Lowercase

def lowercase (s : String) : String := String.ofList (Lowercase.lowered [] s.toList)

def sameIgnoringCase (a b : String) : Bool :=
  if isAscii a && isAscii b then asciiLowercase a == asciiLowercase b
  else lowercase a == lowercase b

end DomQuery.Text
