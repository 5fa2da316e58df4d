import DomQuery.Document.Tree

/-!
Putting several nodes at several targets. The first target gets the nodes themselves and every other
one copies; what a target refuses is left out there.
-/
namespace DomQuery

inductive Place where
  | append
  | prepend
  | before
  | after
  deriving DecidableEq, Repr

namespace Place

def isBeside : Place → Bool
  | .append => false
  | .prepend => false
  | .before => true
  | .after => true

/-- In front of a child, or at the end of a parent where there is no child. -/
def frontOf (parent : NodeId) : Option NodeId → Spot
  | some child => .before child
  | none => .lastIn parent

def spot (d : Document) (target : NodeId) : Place → Spot
  | .append => .lastIn target
  | .prepend => frontOf target (d.firstChild? target)
  | .before => .before target
  | .after => .after target

/-- Where the next node goes once `n` is placed at a spot. A first child that is itself prepended
stays where it is, and what follows goes behind it. -/
def nextSpot (d : Document) (target n : NodeId) (spot : Spot) : Place → Spot
  | .append => spot
  | .prepend => if spot.isNextTo n then frontOf target (d.following n).head? else spot
  | .before => spot
  | .after => .after n

end Place

namespace Document

/-- Places nodes one behind the other; the list holds those that were not refused. -/
def placeFrom (d : Document) (place : Place) (target : NodeId) (spot : Spot) :
    List NodeId → Document × List NodeId
  | [] => (d, [])
  | n :: rest =>
    if (d.refusal? spot n).isSome then d.placeFrom place target spot rest
    else
      let d := d.put spot n
      let (d, placed) := d.placeFrom place target (place.nextSpot d target n spot) rest
      (d, n :: placed)

def place (d : Document) (place : Place) (target : NodeId) (nodes : List NodeId) :
    Document × List NodeId :=
  let spot := place.spot d target
  d.placeFrom place target spot nodes

def copyAll (d : Document) : List NodeId → Document × List NodeId
  | [] => (d, [])
  | n :: rest =>
    let (d, copied) := d.copy n true
    let (d, copies) := d.copyAll rest
    (d, copied :: copies)

def placeCopies (d : Document) (place : Place) (originals : List NodeId) :
    List NodeId → Document × List NodeId
  | [] => (d, [])
  | target :: targets =>
    let (d, copies) := d.copyAll originals
    let (d, placed) := d.place place target copies
    let (d, more) := d.placeCopies place originals targets
    (d, placed ++ more)

/-- Registers the nodes that stand directly in a fragment, so that a bare selector finds them. -/
def adoptTopLevel (d : Document) (nodes : List NodeId) : Document :=
  let top := nodes.filter fun n => (d.parent? n).any d.isFragment
  d.register top

/-- Gives nodes to the first target and copies to the others; the list holds all that was placed. -/
def distribute (d : Document) (place : Place) (targets originals : List NodeId) :
    Document × List NodeId :=
  match targets with
  | [] => (d, [])
  | first :: rest =>
    let (d, placed) := d.place place first originals
    let (d, copies) := d.placeCopies place originals rest
    let placed := placed ++ copies
    (if place.isBeside then d.adoptTopLevel placed else d, placed)

def scratch? (d : Document) (nodes : List NodeId) : Option NodeId := nodes.head?.bind d.parent?

def discardScratch (d : Document) : Option NodeId → Document
  | some container => d.discard container
  | none => d

end Document
end DomQuery
