import DomQuery.Collection.Basic

/-!
From the nodes of a collection to related nodes: each step relates every node to some others and
keeps the first of equal results.
-/
namespace DomQuery

def parseFilter : Option String → Except SelectorError (Option Selector)
  | none => .ok none
  | some text => (Selector.parse text).map some

namespace Document

def applyFilter (d : Document) (filter : Option Selector) (nodes : List NodeId) : List NodeId :=
  match filter with
  | none => nodes
  | some selector => nodes.filter (d.selectorHolds · selector)

def siblings (d : Document) (n : NodeId) : List NodeId :=
  (d.brood n).filter fun s => d.isElement s && s ≠ n

end Document

namespace Collection

def gather (c : Collection) (d : Document) (filter : Option String)
    (related : NodeId → List NodeId) : Except SelectorError Collection := do
  let filter ← parseFilter filter
  return c.derive (d.applyFilter filter (distinct (c.nodes.flatMap related)))

/-- Like `gather`, along walks that end before the first node that the target points at. -/
def gatherUntil (c : Collection) (d : Document) (stop : Target) (filter : Option String)
    (walk : NodeId → List NodeId) : Except SelectorError Collection := do
  let stop ← stop.matcher c.dom
  c.gather d filter fun n => (walk n).takeWhile (!stop.holds d ·)

def find (c : Collection) (d : Document) (selector : String) : Except SelectorError Collection := do
  let selector ← Selector.parse selector
  return c.derive (d.query c.nodes selector .descendants)

def children (c : Collection) (d : Document) (filter : Option String) :
    Except SelectorError Collection :=
  c.gather d filter d.elementChildren

def contents (c : Collection) (d : Document) : Collection := c.derive (c.nodes.flatMap d.children)

def parent (c : Collection) (d : Document) (filter : Option String) :
    Except SelectorError Collection :=
  c.gather d filter fun n => (d.parentElement? n).toList

def parents (c : Collection) (d : Document) (filter : Option String) :
    Except SelectorError Collection :=
  c.gather d filter d.elementAncestors

def parentsUntil (c : Collection) (d : Document) (stop : Target) (filter : Option String) :
    Except SelectorError Collection :=
  c.gatherUntil d stop filter d.elementAncestors

def siblings (c : Collection) (d : Document) (filter : Option String) :
    Except SelectorError Collection :=
  c.gather d filter d.siblings

def next (c : Collection) (d : Document) (filter : Option String) :
    Except SelectorError Collection :=
  c.gather d filter fun n => (d.followingElements n).take 1

def nextAll (c : Collection) (d : Document) (filter : Option String) :
    Except SelectorError Collection :=
  c.gather d filter d.followingElements

def nextUntil (c : Collection) (d : Document) (stop : Target) (filter : Option String) :
    Except SelectorError Collection :=
  c.gatherUntil d stop filter d.followingElements

def prev (c : Collection) (d : Document) (filter : Option String) :
    Except SelectorError Collection :=
  c.gather d filter fun n => (d.precedingElements n).take 1

def prevAll (c : Collection) (d : Document) (filter : Option String) :
    Except SelectorError Collection :=
  c.gather d filter fun n => (d.precedingElements n).reverse

/-- The elements before each node, nearest first. -/
def prevUntil (c : Collection) (d : Document) (stop : Target) (filter : Option String) :
    Except SelectorError Collection :=
  c.gatherUntil d stop filter d.precedingElements

def closest (c : Collection) (d : Document) (selector : String) :
    Except SelectorError Collection := do
  let selector ← Selector.parse selector
  return c.derive (c.nodes.filterMap fun n =>
    (n :: d.elementAncestors n).find? (d.selectorHolds · selector))

/-- An index counted from the end if it is negative, and kept within the list. -/
def resolveIndex (length : Nat) (i : Int) : Nat :=
  if i < 0 then length - i.natAbs else min i.toNat length

def slice (c : Collection) (start : Int) (stop : Option Int) : Collection :=
  let length := c.nodes.length
  let start := resolveIndex length start
  let stop := (stop.map (resolveIndex length)).getD length
  c.derive ((c.nodes.take stop).drop start)

def eq (c : Collection) (index : Int) : Collection :=
  let index := if index < 0 then c.nodes.length + index else index
  c.derive (if index < 0 then [] else c.nodes[index.toNat]?.toList)

def first (c : Collection) : Collection := c.eq 0

def last (c : Collection) : Collection := c.eq (-1)

end Collection
end DomQuery
