/-!
Decimal numbers: an integer and how many of its digits stand behind the point.
-/
namespace DomQuery

structure Decimal where
  mantissa : Int
  places : Nat
  deriving DecidableEq, Repr

namespace Decimal

def shortest (mantissa : Nat) : Nat → Nat × Nat
  | 0 => (mantissa, 0)
  | places + 1 =>
    if mantissa % 10 = 0 then shortest (mantissa / 10) places else (mantissa, places + 1)

/-- The fewest digits; the point only stands before a fraction. -/
def render (x : Decimal) : String :=
  let (digits, places) := shortest x.mantissa.natAbs x.places
  let unit := Nat.pow 10 places
  let whole := Nat.repr (digits / unit)
  let fraction := (Nat.repr (digits % unit)).toList
  let sign := if x.mantissa < 0 then "-" else ""
  if places = 0 then sign ++ whole
  else sign ++ whole ++ "." ++
    String.ofList (List.replicate (places - fraction.length) '0' ++ fraction)

end Decimal
end DomQuery
