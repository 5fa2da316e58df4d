import DomQuery.Decimal
import DomQuery.Entries

/-!
A document is a store of nodes. A node is addressed by the number of its slot for as long as the
document lives, attached or not; a freed slot stays empty and is not used again. Parent and children
are both recorded, and `roots` lists the nodes that a bare selector starts from.
-/
namespace DomQuery

abbrev NodeId := Nat

inductive Namespace where
  | html
  | svg
  | mathMl
  deriving DecidableEq, Repr

namespace Namespace

def url : Namespace → String
  | .html => "http://www.w3.org/1999/xhtml"
  | .svg => "http://www.w3.org/2000/svg"
  | .mathMl => "http://www.w3.org/1998/Math/MathML"

def ofUrl (url : String) : Namespace :=
  if url = svg.url then .svg else if url = mathMl.url then .mathMl else .html

end Namespace

/-- Live state of an element, never written to markup. -/
inductive PropertyValue where
  | null
  | bool (value : Bool)
  | number (value : Decimal)
  | string (value : String)
  deriving DecidableEq, Repr

structure Element where
  tag : String
  attributes : Entries String := []
  properties : Entries PropertyValue := []
  deriving DecidableEq, Repr

inductive Kind where
  /-- Holds the top-level nodes of a forest and is no node of the tree for anyone who looks up. -/
  | fragment
  | element (element : Element)
  | text (data : String)
  | comment (data : String)
  deriving DecidableEq, Repr

structure Node where
  kind : Kind
  ns : Namespace := .html
  parent : Option NodeId := none
  children : List NodeId := []
  deriving DecidableEq, Repr

structure Document where
  slots : Array (Option Node) := #[]
  roots : List NodeId := []

instance : Inhabited Document := ⟨{}⟩

namespace Kind

def isFragment : Kind → Bool
  | .fragment => true
  | _ => false

def element? : Kind → Option Element
  | .element e => some e
  | _ => none

def isLeaf : Kind → Bool
  | .text _ => true
  | .comment _ => true
  | _ => false

def text? : Kind → Option String
  | .text data => some data
  | _ => none

end Kind

namespace Document

def node? (d : Document) (n : NodeId) : Option Node := d.slots[n]?.join

def kind? (d : Document) (n : NodeId) : Option Kind := (d.node? n).map (·.kind)

def ns (d : Document) (n : NodeId) : Namespace := ((d.node? n).map (·.ns)).getD .html

def parent? (d : Document) (n : NodeId) : Option NodeId := (d.node? n).bind (·.parent)

def children (d : Document) (n : NodeId) : List NodeId := ((d.node? n).map (·.children)).getD []

def isAllocated (d : Document) (n : NodeId) : Bool := (d.node? n).isSome

def nodeCount (d : Document) : Nat := d.slots.countP Option.isSome

def element? (d : Document) (n : NodeId) : Option Element := (d.kind? n).bind Kind.element?

def isElement (d : Document) (n : NodeId) : Bool := (d.element? n).isSome

def isFragment (d : Document) (n : NodeId) : Bool := (d.kind? n).any Kind.isFragment

def isLeaf (d : Document) (n : NodeId) : Bool := (d.kind? n).any Kind.isLeaf

def text? (d : Document) (n : NodeId) : Option String := (d.kind? n).bind Kind.text?

def tag? (d : Document) (n : NodeId) : Option String := (d.element? n).map (·.tag)

def attribute? (d : Document) (n : NodeId) (name : String) : Option String :=
  (d.element? n).bind (·.attributes.get? name)

def property? (d : Document) (n : NodeId) (name : String) : Option PropertyValue :=
  (d.element? n).bind (·.properties.get? name)

def fresh (d : Document) : NodeId := d.slots.size

def add (d : Document) (node : Node) : Document := { d with slots := d.slots.push (some node) }

def create (d : Document) (kind : Kind) (ns : Namespace := .html) : Document × NodeId :=
  (d.add { kind, ns }, d.fresh)

def modify (d : Document) (n : NodeId) (f : Node → Node) : Document :=
  { d with slots := d.slots.modify n (Option.map f) }

def free (d : Document) (n : NodeId) : Document :=
  { d with slots := d.slots.modify n fun _ => none }

def modifyElement (d : Document) (n : NodeId) (f : Element → Element) : Document :=
  d.modify n fun node => match node.kind with
    | .element e => { node with kind := .element (f e) }
    | _ => node

def setAttribute (d : Document) (n : NodeId) (name value : String) : Document :=
  d.modifyElement n fun e => { e with attributes := e.attributes.set name value }

def removeAttribute (d : Document) (n : NodeId) (name : String) : Document :=
  d.modifyElement n fun e => { e with attributes := e.attributes.remove name }

def setProperty (d : Document) (n : NodeId) (name : String) (value : PropertyValue) : Document :=
  d.modifyElement n fun e => { e with properties := e.properties.set name value }

def removeProperty (d : Document) (n : NodeId) (name : String) : Document :=
  d.modifyElement n fun e => { e with properties := e.properties.remove name }

end Document
end DomQuery
