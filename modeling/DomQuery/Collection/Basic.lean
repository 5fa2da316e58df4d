import DomQuery.Document.Query
import DomQuery.Selector.Reader

/-!
A collection is an ordered list of distinct nodes of one document, with the collections it was
derived from, so that a chain of steps can be taken back.
-/
namespace DomQuery

abbrev DomId := Nat

structure Selection where
  dom : DomId
  nodes : List NodeId
  deriving DecidableEq, Repr

structure Collection extends Selection where
  /-- The selections this one comes from, the nearest first. -/
  history : List Selection := []
  deriving DecidableEq, Repr

/-- What can be inserted: markup, nodes of the receiving document, or a collection of any. -/
inductive Content where
  | markup (text : String)
  | nodes (nodes : List NodeId)
  | collection (collection : Collection)

inductive Target where
  | selector (text : String)
  | nodes (nodes : List NodeId)
  | collection (collection : Collection)

/-- A test for nodes of one document. -/
inductive Matcher where
  | selector (selector : Selector)
  | nodes (nodes : List NodeId)

def Matcher.holds (m : Matcher) (d : Document) (n : NodeId) : Bool :=
  match m with
  | .selector s => d.selectorHolds n s
  | .nodes ns => ns.contains n

/-- Node numbers of another document say nothing about this one. -/
def Target.matcher (dom : DomId) : Target → Except SelectorError Matcher
  | .selector text => (Selector.parse text).map .selector
  | .nodes ns => .ok (.nodes ns)
  | .collection c => .ok (.nodes (if c.dom = dom then c.nodes else []))

def Content.isMarkup : Content → Bool
  | .markup _ => true
  | _ => false

namespace Collection

def ofNodes (dom : DomId) (nodes : List NodeId) : Collection := { dom, nodes := distinct nodes }

def deriveIn (c : Collection) (dom : DomId) (nodes : List NodeId) : Collection :=
  { dom, nodes := distinct nodes, history := c.toSelection :: c.history }

def derive (c : Collection) (nodes : List NodeId) : Collection := c.deriveIn c.dom nodes

theorem nodes_derive {c : Collection} (ns : List NodeId) : (c.derive ns).nodes = distinct ns := rfl

def back (c : Collection) : Collection :=
  match c.history with
  | [] => { dom := c.dom, nodes := [] }
  | s :: history => { s with history }

def first? (c : Collection) : Option NodeId := c.nodes.head?

def visitedFrom (goesOn : Nat → NodeId → Bool) : Nat → List NodeId → List NodeId
  | _, [] => []
  | i, n :: rest => n :: if goesOn i n then visitedFrom goesOn (i + 1) rest else []

def visited (c : Collection) (goesOn : Nat → NodeId → Bool) : List NodeId :=
  visitedFrom goesOn 0 c.nodes

end Collection
end DomQuery
