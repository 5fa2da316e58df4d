import DomQuery.Selector.Basic
import DomQuery.Selector.Escape

/-!
The canonical text of a selector: one space around each explicit combinator, values in double
quotes, and a backslash before each character that a name could not hold.
-/
namespace DomQuery

def Combinator.chars : Combinator → List Char
  | .descendant => [' ']
  | .child => [' ', '>', ' ']
  | .nextSibling => [' ', '+', ' ']
  | .subsequentSibling => [' ', '~', ' ']

def Comparison.token : Comparison → List Char
  | .present => []
  | .equals => ['=']
  | .contains => ['*', '=']
  | .startsWith => ['^', '=']
  | .endsWith => ['$', '=']
  | .word => ['~', '=']
  | .dash => ['|', '=']

def AttributeTest.chars (test : AttributeTest) : List Char :=
  '[' :: Selector.escapeName test.name.toList ++
    (match test.comparison with
    | .present => []
    | comparison => comparison.token ++ Selector.quote test.value.toList) ++ [']']

def Kin.chars : Kin → List Char
  | .child => "child".toList
  | .ofType => "of-type".toList

def Position.chars : Position → List Char
  | .first kin => "first-".toList ++ kin.chars
  | .last kin => "last-".toList ++ kin.chars
  | .only kin => "only-".toList ++ kin.chars
  | .nth kin formula => "nth-".toList ++ kin.chars ++ '(' :: formula.render.toList ++ [')']
  | .nthLast kin formula =>
    "nth-last-".toList ++ kin.chars ++ '(' :: formula.render.toList ++ [')']

mutual

def Part.chars : Part → List Char
  | .universal => ['*']
  | .tag name => Selector.escapeTag name.toList
  | .id name => '#' :: Selector.escapeName name.toList
  | .className name => '.' :: Selector.escapeName name.toList
  | .attribute test => test.chars
  | .position position => ':' :: position.chars
  | .empty => ":empty".toList
  | .root => ":root".toList
  | .contains text => ":contains(".toList ++ Selector.quote text.toList ++ [')']
  | .not alternatives => ":not(".toList ++ Selector.chars alternatives ++ [')']
  | .unmatchable text => text.toList

def Compound.chars : List Part → List Char
  | [] => []
  | part :: parts => part.chars ++ Compound.chars parts

def Chain.chars : Chain → List Char
  | .compound parts => Compound.chars parts
  | .step left combinator parts => left.chars ++ combinator.chars ++ Compound.chars parts

def Selector.chars : List Chain → List Char
  | [] => []
  | chain :: chains =>
    chain.chars ++ (match chains with
      | [] => []
      | next :: more => ',' :: ' ' :: Selector.chars (next :: more))

end

def Compound.render (parts : Compound) : String := String.ofList (Compound.chars parts)

def Chain.render (chain : Chain) : String := String.ofList chain.chars

def Selector.render (selector : Selector) : String := String.ofList (Selector.chars selector)

end DomQuery
