/-!
What is wrong with a selector that cannot be read. Selectors that are only odd are read into parts
that never hold; these faults leave it open where a compound ends.
-/
namespace DomQuery

inductive Fault where
  /-- A compound that consists of `.` and `#` without names. -/
  | danglingSigil
  | unclosedAttribute
  | unterminatedString
  | unclosedParenthesis
  /-- A comma that separates nothing, as one inside parentheses that belong to no pseudo-class. -/
  | strayComma
  deriving DecidableEq, Repr

def Fault.phrase : Fault → String
  | .danglingSigil => "has a bare . or # with nothing to qualify"
  | .unclosedAttribute => "has an unclosed attribute selector"
  | .unterminatedString => "has an unterminated quoted string"
  | .unclosedParenthesis => "has an unclosed parenthesis"
  | .strayComma => "has a comma inside parentheses of no pseudo-class"

/-- A fault together with the whole selector, however deep inside it the fault lies. -/
structure SelectorError where
  fault : Fault
  selector : String
  deriving DecidableEq, Repr

def SelectorError.message (e : SelectorError) : String :=
  "selector \"" ++ e.selector ++ "\" " ++ e.fault.phrase

end DomQuery
