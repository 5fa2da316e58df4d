import DomQuery.Markup.CharacterReference.Table
import Std.Data.HashMap

/-!
Character references: `&name;`, `&#10;` and `&#xA;`. Text that is no reference stays as it is. In
attribute values a name without semicolon counts only if nothing that could continue it follows.
-/
namespace DomQuery.Markup.CharacterReference

def hexValue (c : Char) : Nat :=
  if c.isDigit then c.toNat - '0'.toNat else c.toLower.toNat - 'a'.toNat + 10

def isHexDigit (c : Char) : Bool := c.isDigit || ('a' ≤ c.toLower && c.toLower ≤ 'f')

def number (base : Nat) (digits : List Char) : Nat :=
  digits.foldl (fun n c => base * n + hexValue c) 0

def characters (codes : String) : List Char :=
  (codes.splitOn "-").map fun code => Char.ofNat (number 16 code.toList)

def named : Std.HashMap String (List Char) :=
  (groups.flatMap (·.splitOn "|")).foldl (fun table group =>
    match group.splitOn " " with
    | codes :: names => names.foldl (fun table name => table.insert name (characters codes)) table
    | [] => table) {}

def bare : List String := bareNames.flatMap (·.splitOn " ")

def longestBare? (run : List Char) : Nat → Option (String × List Char)
  | 0 => none
  | length + 1 =>
    let name := String.ofList (run.take (length + 1))
    if bare.contains name then some (name, run.drop (length + 1)) else longestBare? run length

def longestBareName : Nat := 6

def isAlphanumeric (c : Char) : Bool := c.isAlphanum

def named? (inAttribute : Bool) (cs : List Char) : Option (List Char × List Char) :=
  let run := cs.takeWhile isAlphanumeric
  let rest := cs.dropWhile isAlphanumeric
  match rest, named[String.ofList run]? with
  | ';' :: rest, some found => some (found, rest)
  | _, _ => do
    let (name, left) ← longestBare? run (min run.length longestBareName)
    let found ← named[name]?
    let continued := !left.isEmpty || rest.head? == some '='
    if inAttribute && continued then none else some (found, left ++ rest)

/-- The characters that the codes from `0x80` to `0x9f` stand for, by the code page of old pages. -/
def windowsCodes : List Nat := [
  0x20AC, 0x81, 0x201A, 0x192, 0x201E, 0x2026, 0x2020, 0x2021, 0x2C6, 0x2030, 0x160, 0x2039, 0x152,
  0x8D, 0x17D, 0x8F, 0x90, 0x2018, 0x2019, 0x201C, 0x201D, 0x2022, 0x2013, 0x2014, 0x2DC, 0x2122,
  0x161, 0x203A, 0x153, 0x9D, 0x17E, 0x178]

def replacement : Char := '\uFFFD'

def ofCode (code : Nat) : Char :=
  if code == 0 || 0x10FFFF < code || (0xD800 ≤ code && code ≤ 0xDFFF) then replacement
  else if 0x80 ≤ code && code ≤ 0x9F then Char.ofNat (windowsCodes.getD (code - 0x80) code)
  else Char.ofNat code

def dropSemicolon : List Char → List Char
  | ';' :: rest => rest
  | cs => cs

def numeric? (base : Nat) (isDigit : Char → Bool) (cs : List Char) :
    Option (List Char × List Char) :=
  let digits := cs.takeWhile isDigit
  if digits.isEmpty then none
  else some ([ofCode (number base digits)], dropSemicolon (cs.dropWhile isDigit))

def startsWithOpenNumber : List Char → Bool
  | '&' :: '#' :: c :: rest =>
    let isHex := c == 'x' || c == 'X'
    let digits := if isHex then rest else c :: rest
    let isDigit := if isHex then isHexDigit else Char.isDigit
    !(digits.takeWhile isDigit).isEmpty && (digits.dropWhile isDigit).head? != some ';'
  | _ => false

def read? (inAttribute : Bool) : List Char → Option (List Char × List Char)
  | '#' :: 'x' :: rest => numeric? 16 isHexDigit rest
  | '#' :: 'X' :: rest => numeric? 16 isHexDigit rest
  | '#' :: rest => numeric? 10 Char.isDigit rest
  | cs => named? inAttribute cs

/-- Decodes at most `bound` references behind the text that is done. -/
def decodeOnto (inAttribute : Bool) : (bound : Nat) → (done : String) → List Char → String
  | 0, done, _ => done
  | bound + 1, done, cs =>
    let done := done ++ String.ofList (cs.takeWhile (· != '&'))
    match cs.dropWhile (· != '&') with
    | [] => done
    | amp :: rest =>
      match read? inAttribute rest with
      | some (found, rest) => decodeOnto inAttribute bound (done ++ String.ofList found) rest
      | none => decodeOnto inAttribute bound (done.push amp) rest

def decode (inAttribute : Bool) (cs : List Char) : String :=
  decodeOnto inAttribute (cs.length + 1) "" cs

end DomQuery.Markup.CharacterReference
