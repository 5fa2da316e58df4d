import DomQuery.Document.Move

/-!
Trees as values. `treeAt` reads the subtree below a node, `plant` makes new nodes for a tree; to
copy a node is to plant what was read, in the same document or in another.
-/
namespace DomQuery

inductive Tree where
  | node (kind : Kind) (ns : Namespace) (children : List Tree)

instance : Inhabited Tree := ⟨.node .fragment .html []⟩

namespace Document

def treeWithin (d : Document) : Nat → NodeId → Tree
  | 0, _ => default
  | bound + 1, n =>
    .node ((d.kind? n).getD .fragment) (d.ns n) ((d.children n).map (d.treeWithin bound))

def treeAt (d : Document) (n : NodeId) : Tree := d.treeWithin d.slots.size n

mutual

/-- Makes nodes for a tree below a parent that does not list them yet. -/
def plantUnder (d : Document) (parent : Option NodeId) : Tree → Document × NodeId
  | .node kind ns children =>
    let n := d.fresh
    let (d, planted) := plantAllUnder (d.add { kind, ns, parent }) n children
    (d.modify n fun node => { node with children := planted }, n)

def plantAllUnder (d : Document) (parent : NodeId) : List Tree → Document × List NodeId
  | [] => (d, [])
  | tree :: trees =>
    let (d, n) := plantUnder d (some parent) tree
    let (d, rest) := plantAllUnder d parent trees
    (d, n :: rest)

end

def plant (d : Document) (tree : Tree) : Document × NodeId := d.plantUnder none tree

def copy (d : Document) (n : NodeId) (deep : Bool) : Document × NodeId :=
  if deep then d.plant (d.treeAt n)
  else d.create ((d.kind? n).getD .fragment) (d.ns n)

def importNode (d other : Document) (n : NodeId) : Document × NodeId := d.plant (other.treeAt n)

def plantAll (d : Document) : List Tree → Document × List NodeId
  | [] => (d, [])
  | tree :: trees =>
    let (d, n) := d.plant tree
    let (d, rest) := d.plantAll trees
    (d, n :: rest)

end Document
end DomQuery
