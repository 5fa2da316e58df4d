import DomQuery.Document.Walk
import Std.Data.HashMap

/-!
Document order over several trees: each tree in its own order, the trees in the order in which the
list first comes to them. A node is keyed by the rank of its tree and the positions on the way down
to it. The children of a node are numbered once, when a walk first comes to one of them.
-/
namespace DomQuery.Document

/-- The trees that a list has come to so far, and the positions numbered on the way. -/
structure Survey where
  tops : List NodeId := []
  positions : Std.HashMap NodeId Nat := {}

namespace Survey

def position (d : Document) (s : Survey) (n : NodeId) : Survey × Nat :=
  match s.positions[n]?, d.parent? n with
  | some i, _ => (s, i)
  | none, some p =>
    let positions := s.positions.insertMany (d.children p).zipIdx
    ({ s with positions }, positions.getD n 0)
  | none, none => (s, 0)

def positionsOf (d : Document) (s : Survey) : List NodeId → Survey × List Nat
  | [] => (s, [])
  | n :: rest =>
    let (s, i) := s.position d n
    let (s, is) := s.positionsOf d rest
    (s, i :: is)

/-- The number of a tree, which is the next free one if the tree is new. -/
def rank (s : Survey) (top : NodeId) : Survey × Nat :=
  match s.tops.idxOf? top with
  | some i => (s, i)
  | none => ({ s with tops := s.tops ++ [top] }, s.tops.length)

def key (d : Document) (s : Survey) (n : NodeId) : Survey × List Nat :=
  let (s, path) := s.positionsOf d (n :: d.ancestors n)
  let (s, rank) := s.rank (d.top n)
  (s, rank :: path.reverse)

def keyed (d : Document) (s : Survey) : List NodeId → List (List Nat × NodeId)
  | [] => []
  | n :: rest =>
    let (s, key) := s.key d n
    (key, n) :: s.keyed d rest

end Survey

def keyLe (a b : List Nat) : Bool := !b.lex a

/-- A node that is listed twice stays listed twice. -/
def sortByOrder (d : Document) (nodes : List NodeId) : List NodeId :=
  ((Survey.keyed d {} nodes).mergeSort fun a b => keyLe a.1 b.1).map (·.2)

end DomQuery.Document
