import DomQuery.Collection.Basic
import DomQuery.Document.Render

/-!
Narrowing a collection, and asking about it.
-/
namespace DomQuery.Collection

def filter (c : Collection) (d : Document) (selector : String) :
    Except SelectorError Collection := do
  let selector ← Selector.parse selector
  return c.derive (c.nodes.filter (d.selectorHolds · selector))

def without (c : Collection) (d : Document) (selector : String) :
    Except SelectorError Collection := do
  let selector ← Selector.parse selector
  return c.derive (c.nodes.filter (!d.selectorHolds · selector))

def filterFrom (keep : Nat → NodeId → Bool) : Nat → List NodeId → List NodeId
  | _, [] => []
  | i, n :: rest =>
    if keep i n then n :: filterFrom keep (i + 1) rest else filterFrom keep (i + 1) rest

/-- Keeps the nodes for which a predicate gives a definite `true`. -/
def filterBy (c : Collection) (predicate : Nat → NodeId → Option Bool) : Collection :=
  c.derive (filterFrom (fun i n => predicate i n == some true) 0 c.nodes)

def withoutBy (c : Collection) (predicate : Nat → NodeId → Option Bool) : Collection :=
  c.derive (filterFrom (fun i n => predicate i n != some true) 0 c.nodes)

def has (c : Collection) (d : Document) (selector : String) : Except SelectorError Collection := do
  let selector ← Selector.parse selector
  return c.derive (c.nodes.filter fun n => !(d.query [n] selector .descendants).isEmpty)

def is (c : Collection) (d : Document) (target : Target) : Except SelectorError Bool := do
  let matcher ← target.matcher c.dom
  return c.nodes.any (matcher.holds d)

/-- The position of the first node among the elements of its parent, if it has a parent. -/
def index? (c : Collection) (d : Document) : Option Nat := do
  let n ← c.first?
  let _ ← d.parent? n
  return (d.precedingElements n).length

def indexOf? (c : Collection) (d : Document) (target : Target) :
    Except SelectorError (Option Nat) := do
  match target with
  | .selector text =>
    let selector ← Selector.parse text
    return c.nodes.findIdx? (d.selectorHolds · selector)
  | .nodes nodes => return nodes.head?.bind fun n => c.nodes.findIdx? (· = n)
  | .collection other =>
    if other.dom = c.dom then
      return other.first?.bind fun n => c.nodes.findIdx? (· = n)
    else return none

def hasClass (c : Collection) (d : Document) (name : String) : Bool :=
  c.nodes.any (d.hasClass · name)

def text (c : Collection) (d : Document) : String :=
  c.nodes.foldl (fun out n => out ++ d.textContent n) ""

def innerMarkup? (c : Collection) (d : Document) : Option String := c.first?.map (d.innerMarkup ·)

def outerMarkup (c : Collection) (d : Document) : String :=
  c.nodes.foldl (fun out n => out ++ d.outerMarkup n) ""

end DomQuery.Collection
