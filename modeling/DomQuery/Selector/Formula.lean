import DomQuery.Text.Blank

/-!
Position formulas `An+B`, as in `:nth-child(2n+1)`: the positions `a * n + b` for `n = 0, 1, 2, …`.
Both numbers are words of 32 bits.
-/
namespace DomQuery

structure Formula where
  a : Int32
  b : Int32
  deriving DecidableEq, Repr

namespace Formula
open Text

def even : Formula := ⟨2, 0⟩

def odd : Formula := ⟨2, 1⟩

def digitValue (c : Char) : Nat := c.toNat - '0'.toNat

def natural? (digits : List Char) : Option Nat :=
  if digits.isEmpty || !digits.all Char.isDigit then none
  else some (digits.foldl (fun n c => 10 * n + digitValue c) 0)

def integer? : List Char → Option Int
  | '+' :: digits => (natural? digits).map Int.ofNat
  | '-' :: digits => (natural? digits).map fun n => -(n : Int)
  | digits => (natural? digits).map Int.ofNat

def word? (cs : List Char) : Option Int32 := do
  let n ← integer? cs
  if -0x80000000 ≤ n ∧ n < 0x80000000 then some (Int32.ofInt n) else none

def coefficient? : List Char → Option Int32
  | [] => some 1
  | ['+'] => some 1
  | ['-'] => some (-1)
  | cs => word? cs

def offset? : List Char → Option Int32
  | [] => some 0
  | c :: cs => if c == '+' || c == '-' then word? (c :: cs) else none

def ofCompact? (cs : List Char) : Option Formula :=
  if cs == "even".toList then some even
  else if cs == "odd".toList then some odd
  else match cs.span (· != 'n') with
    | (number, []) => (word? number).map (⟨0, ·⟩)
    | (number, _ :: rest) => do some ⟨← coefficient? number, ← offset? rest⟩

/-- Blanks are ignored wherever they stand, and so is the case of ASCII letters. -/
def ofChars? (cs : List Char) : Option Formula :=
  ofCompact? ((cs.filter (!isBlank ·)).map Char.toLower)

def parse? (text : String) : Option Formula := ofChars? text.toList

def word64? (n : Int) : Option Int :=
  if -0x8000000000000000 ≤ n ∧ n < 0x8000000000000000 then some n else none

/-- The remainder of two words. It has none where the quotient is no word. -/
def remainder? (x y : Int) : Option Int := (word64? (x.tdiv y)).map fun _ => x.tmod y

/-- Whether `a * n + b = position` for some natural `n`. Positions are words, so none beyond the words is
accepted. There is no answer where the difference, the remainder or the quotient overflows. -/
def accepts? (f : Formula) (position : Nat) : Option Bool :=
  if 0x8000000000000000 ≤ position then some false
  else if f.a = 0 then some (position == f.b.toInt)
  else do
    let distance ← word64? (position - f.b.toInt)
    let remainder ← remainder? distance f.a.toInt
    if remainder ≠ 0 then some false
    else do
      let quotient ← word64? (distance.tdiv f.a.toInt)
      some (0 ≤ quotient)

def intText (n : Int) : String :=
  if n < 0 then "-" ++ Nat.repr n.natAbs else Nat.repr n.natAbs

def render (f : Formula) : String :=
  if f.a = 0 then intText f.b.toInt
  else if f.b = 0 then intText f.a.toInt ++ "n"
  else if 0 < f.b then intText f.a.toInt ++ "n+" ++ intText f.b.toInt
  else intText f.a.toInt ++ "n" ++ intText f.b.toInt

end Formula
end DomQuery
