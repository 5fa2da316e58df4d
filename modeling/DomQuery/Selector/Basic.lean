import DomQuery.Selector.Formula

/-!
Selectors as trees. A selector is a list of alternative chains, a chain links compounds by
combinators, and a compound is a list of parts that must all hold of the same element. A chain is
built to the right, so that its last compound, the one that names the selected element, is outermost.
-/
namespace DomQuery

inductive Combinator where
  | descendant
  | child
  | nextSibling
  | subsequentSibling
  deriving DecidableEq, Repr

inductive Comparison where
  | present
  | equals
  | contains
  | startsWith
  | endsWith
  /-- One of the words of the value. -/
  | word
  /-- The whole value, or its beginning up to a hyphen. -/
  | dash
  deriving DecidableEq, Repr

structure AttributeTest where
  name : String
  comparison : Comparison
  value : String
  deriving DecidableEq, Repr

inductive Kin where
  | child
  | ofType
  deriving DecidableEq, Repr

inductive Position where
  | first (kin : Kin)
  | last (kin : Kin)
  | only (kin : Kin)
  | nth (kin : Kin) (formula : Formula)
  | nthLast (kin : Kin) (formula : Formula)
  deriving DecidableEq, Repr

mutual

/-- One condition on an element. Text that could not be understood is kept and never holds. -/
inductive Part where
  | universal
  | tag (name : String)
  | id (name : String)
  | className (name : String)
  | attribute (test : AttributeTest)
  | position (position : Position)
  | empty
  | root
  | contains (text : String)
  | not (alternatives : List Chain)
  | unmatchable (text : String)

inductive Chain where
  | compound (parts : List Part)
  | step (left : Chain) (combinator : Combinator) (parts : List Part)

end

abbrev Compound := List Part

abbrev Selector := List Chain

instance : Inhabited Part := ⟨.universal⟩

instance : Inhabited Chain := ⟨.compound []⟩

namespace Part

def isUnmatchable : Part → Bool
  | .unmatchable _ => true
  | _ => false

end Part

namespace Chain

def subject : Chain → Compound
  | .compound parts => parts
  | .step _ _ parts => parts

def head : Chain → Compound
  | .compound parts => parts
  | .step left _ _ => left.head

def steps : Chain → List (Combinator × Compound)
  | .compound _ => []
  | .step left combinator parts => left.steps ++ [(combinator, parts)]

def compounds : Chain → List Compound
  | .compound parts => [parts]
  | .step left _ parts => left.compounds ++ [parts]

def ofSteps (head : Compound) (steps : List (Combinator × Compound)) : Chain :=
  steps.foldl (fun left (combinator, parts) => .step left combinator parts) (.compound head)

/-- A chain that never holds and keeps the text it stands for. -/
def unmatchable (text : String) : Chain := .compound [.unmatchable text]

/-- Whether one of the chain's own parts can never hold; parts inside `:not` do not count. -/
def isUnmatchable : Chain → Bool
  | .compound parts => parts.any Part.isUnmatchable
  | .step left _ parts => left.isUnmatchable || parts.any Part.isUnmatchable

end Chain

mutual

def Part.beq : Part → Part → Bool
  | .universal, .universal => true
  | .tag a, .tag b => a == b
  | .id a, .id b => a == b
  | .className a, .className b => a == b
  | .attribute a, .attribute b => a == b
  | .position a, .position b => a == b
  | .empty, .empty => true
  | .root, .root => true
  | .contains a, .contains b => a == b
  | .not a, .not b => Selector.beq a b
  | .unmatchable a, .unmatchable b => a == b
  | _, _ => false

def Compound.beq : List Part → List Part → Bool
  | [], [] => true
  | p :: ps, q :: qs => Part.beq p q && Compound.beq ps qs
  | _, _ => false

def Chain.beq : Chain → Chain → Bool
  | .compound ps, .compound qs => Compound.beq ps qs
  | .step l c ps, .step m d qs => Chain.beq l m && (c == d && Compound.beq ps qs)
  | _, _ => false

def Selector.beq : List Chain → List Chain → Bool
  | [], [] => true
  | c :: cs, d :: ds => Chain.beq c d && Selector.beq cs ds
  | _, _ => false

end

instance : BEq Part := ⟨Part.beq⟩

instance : BEq Chain := ⟨Chain.beq⟩

end DomQuery
