import DomQuery.Document.Move

/-!
Building a forest by edits. Each new element or comment gets the next handle, by which later edits name
it. The fragment that holds the forest has none: things are put into it and it is put nowhere. An edit
that would break the tree changes nothing.
-/
namespace DomQuery.Markup

abbrev Handle := Nat

/-- Where in the tree something goes. -/
inductive InsertionPoint where
  /-- The end of a node, or of the fragment. -/
  | inside (parent : Option Handle)
  | before (sibling : Handle)
  /-- For content that a table cannot hold: the table, and the open element around it. -/
  | misplaced (table around : Handle)
  deriving DecidableEq, Repr

inductive Addition where
  | node (handle : Handle)
  | text (text : String)
  deriving DecidableEq, Repr

inductive Edit where
  /-- Attributes of one name are one, with the last value. -/
  | element (tag : String) (ns : Namespace) (attributes : Entries String)
  | comment (text : String)
  | insert (point : InsertionPoint) (addition : Addition)
  | detach (node : Handle)
  /-- Moves all children of one node to the end of another. -/
  | moveChildren (source target : Handle)
  deriving DecidableEq, Repr

end DomQuery.Markup

namespace DomQuery.Document

def putText (d : Document) (spot : Spot) (text : String) : Document :=
  let (d, t) := d.create (.text text)
  d.tryPut spot t

def appendText (d : Document) (parent : NodeId) (text : String) : Document :=
  match d.lastChild? parent with
  | none => d.putText (.lastIn parent) text
  | some last =>
    if (d.text? last).isNone then d.putText (.lastIn parent) text
    else d.modify last fun node => match node.kind with
      | .text data => { node with kind := .text (data ++ text) }
      | _ => node

end DomQuery.Document

namespace DomQuery.Markup

/-- A document under construction: the fragment for the forest, and the nodes of the handles given out
so far. -/
structure Site where
  document : Document
  container : NodeId
  nodes : Array NodeId

namespace Site

/-- A forest is built in the document that asks for it, beside whatever is there. -/
def startIn (d : Document) : Site :=
  let (document, container) := d.create .fragment
  { document, container, nodes := #[] }

def add (s : Site) (kind : Kind) (ns : Namespace) : Site :=
  let (document, n) := s.document.create kind ns
  { s with document, nodes := s.nodes.push n }

def parent? (s : Site) : Option Handle → Option NodeId
  | some handle => s.nodes[handle]?
  | none => some s.container

/-! Putting something into the tree. -/

def append (s : Site) (parent : Option Handle) : Addition → Site
  | .node handle =>
    match s.parent? parent, s.nodes[handle]? with
    | some p, some n => { s with document := s.document.tryPut (.lastIn p) n }
    | _, _ => s
  | .text text =>
    match s.parent? parent with
    | some p => { s with document := s.document.appendText p text }
    | none => s

/-- Here a text is a node of its own, whatever is next to it. -/
def appendBefore (s : Site) (sibling : Handle) : Addition → Site
  | .node handle =>
    match s.nodes[sibling]?, s.nodes[handle]? with
    | some b, some n => { s with document := s.document.tryPut (.before b) n }
    | _, _ => s
  | .text text =>
    match s.nodes[sibling]? with
    | some b => { s with document := s.document.putText (.before b) text }
    | none => s

/-- What is misplaced in a table goes to its end, and the element around it is never asked. -/
def appendMisplaced (s : Site) (table _around : Handle) (addition : Addition) : Site :=
  s.append (some table) addition

def insert (s : Site) (addition : Addition) : InsertionPoint → Site
  | .inside parent => s.append parent addition
  | .before sibling => s.appendBefore sibling addition
  | .misplaced table around => s.appendMisplaced table around addition

def apply (s : Site) : Edit → Site
  | .element tag ns attributes => s.add (.element { tag, attributes := .ofPairs attributes }) ns
  | .comment text => s.add (.comment text) .html
  | .insert point addition => s.insert addition point
  | .detach node =>
    match s.nodes[node]? with
    | some n => { s with document := s.document.detach n }
    | none => s
  | .moveChildren source target =>
    match s.nodes[source]?, s.nodes[target]? with
    | some a, some b =>
      { s with document := s.document.tryPutAll (.lastIn b) (s.document.children a) }
    | _, _ => s

def run (d : Document) (edits : List Edit) : Site := edits.foldl apply (startIn d)

end Site
end DomQuery.Markup
