import DomQuery.Document.Walk
import DomQuery.Selector.Basic
import DomQuery.Text.Search

/-!
When a selector holds of a node. A chain is tried from its subject leftwards, with every element that
the combinator allows; walks to ancestors may be stopped at a node, which is then out of reach.
-/
namespace DomQuery
open Text

def AttributeTest.holdsOf (test : AttributeTest) (actual : String) : Bool :=
  match test.comparison with
  | .present => true
  | .equals => actual = test.value
  | .contains => !test.value.isEmpty && containsText actual test.value
  | .startsWith => !test.value.isEmpty && startsWith actual test.value
  | .endsWith => !test.value.isEmpty && endsWith actual test.value
  | .word =>
    !test.value.isEmpty && !test.value.toList.any isBlank && (words actual).contains test.value
  | .dash => actual = test.value || startsWith actual (test.value ++ "-")

namespace Document

def sameTag (d : Document) (a b : NodeId) : Bool :=
  match d.tag? a, d.tag? b with
  | some s, some t => sameIgnoringCase s t
  | _, _ => false

/-- The element siblings before a node that count for a position. -/
def kinBefore (d : Document) (n : NodeId) : Kin → List NodeId
  | .child => d.precedingElements n
  | .ofType => (d.precedingElements n).filter (d.sameTag · n)

def kinAfter (d : Document) (n : NodeId) : Kin → List NodeId
  | .child => d.followingElements n
  | .ofType => (d.followingElements n).filter (d.sameTag · n)

/-- A count never gets near the end of the words, so a formula has an answer for it. -/
def isAt (d : Document) (n : NodeId) : Position → Bool
  | .first kin => (d.kinBefore n kin).isEmpty
  | .last kin => (d.kinAfter n kin).isEmpty
  | .only kin => (d.kinBefore n kin).isEmpty && (d.kinAfter n kin).isEmpty
  | .nth kin formula => formula.accepts? ((d.kinBefore n kin).length + 1) = some true
  | .nthLast kin formula => formula.accepts? ((d.kinAfter n kin).length + 1) = some true

/-- Nothing below but comments and blank texts. -/
def isBare (d : Document) (n : NodeId) : Bool :=
  (d.children n).all fun c => match d.kind? c with
    | some (.text data) => isAllBlank data
    | some (.comment _) => true
    | _ => false

/-- The parent element, unless it is out of reach. -/
def parentBelow? (d : Document) (stop : Option NodeId) (n : NodeId) : Option NodeId :=
  (d.parentElement? n).filter (some · ≠ stop)

def parentsBelow (d : Document) (stop : Option NodeId) : Nat → NodeId → List NodeId
  | 0, _ => []
  | bound + 1, n =>
    match d.parentBelow? stop n with
    | none => []
    | some p => p :: d.parentsBelow stop bound p

def related (d : Document) (stop : Option NodeId) (n : NodeId) : Combinator → List NodeId
  | .child => (d.parentBelow? stop n).toList
  | .descendant => d.parentsBelow stop d.slots.size n
  | .nextSibling => (d.precedingElements n).take 1
  | .subsequentSibling => d.precedingElements n

mutual

def partHolds (d : Document) (n : NodeId) (e : Element) : Part → Bool
  | .universal => true
  | .tag name => sameIgnoringCase e.tag name
  | .id name => e.attributes.get? "id" = some name
  | .className name => d.hasClass n name
  | .attribute test => (e.attributes.get? test.name).any test.holdsOf
  | .position position => d.isAt n position
  | .empty => d.isBare n
  | .root => (d.parentElement? n).isNone
  | .contains text => containsText (d.innerText n) text
  | .not alternatives => !d.selectorHolds n alternatives
  | .unmatchable _ => false

def partsHold (d : Document) (n : NodeId) (e : Element) : List Part → Bool
  | [] => true
  | part :: parts => d.partHolds n e part && d.partsHold n e parts

/-- The search for elements that fit the compounds of a chain. -/
def chainFits (d : Document) (stop : Option NodeId) (n : NodeId) : Chain → Bool
  | .compound parts => match d.element? n with
    | some e => d.partsHold n e parts
    | none => false
  | .step left combinator parts =>
    (match d.element? n with
    | some e => d.partsHold n e parts
    | none => false) &&
      (d.related stop n combinator).any fun m => d.chainFits stop m left

/-- Some chain of the list selects the node, and no walk is stopped. A chain with a part that never
holds is not searched. -/
def selectorHolds (d : Document) (n : NodeId) : List Chain → Bool
  | [] => false
  | chain :: chains =>
    (!chain.isUnmatchable && d.chainFits none n chain) || d.selectorHolds n chains

end

/-- All parts hold of the element; no compound holds of any other node. -/
def compoundHolds (d : Document) (n : NodeId) (parts : Compound) : Bool :=
  (d.element? n).any fun e => d.partsHold n e parts

def chainHoldsWithin (d : Document) (stop : Option NodeId) (n : NodeId) (chain : Chain) : Bool :=
  !chain.isUnmatchable && d.chainFits stop n chain

def chainHolds (d : Document) (n : NodeId) (chain : Chain) : Bool := d.chainHoldsWithin none n chain

end Document
end DomQuery
