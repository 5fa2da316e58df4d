import DomQuery.Distinct
import DomQuery.Document.Matching
import DomQuery.Document.Move
import DomQuery.Document.Order
import Std.Data.HashSet

/-!
Searching below roots. Roots may repeat, and one may lie inside another; the result lists each node
once, in document order.
-/
namespace DomQuery

inductive Scope where
  /-- The root and all below it; combinators may look past the root. -/
  | inclusive
  /-- Only what is below the root; ancestors are looked for below the root too. -/
  | descendants
  deriving DecidableEq, Repr

def Scope.stop (root : NodeId) : Scope → Option NodeId
  | .inclusive => none
  | .descendants => some root

namespace Document

def candidates (d : Document) (root : NodeId) : Scope → List NodeId
  | .inclusive => d.subtree root
  | .descendants => d.descendants root

def queryRoot (d : Document) (selector : Selector) (scope : Scope) (root : NodeId) : List NodeId :=
  (d.candidates root scope).filter fun n => selector.any (d.chainHoldsWithin (scope.stop root) n)

/-- The roots that lie in no other root, in document order. -/
def outermost (d : Document) (roots : List NodeId) : List NodeId :=
  d.sortByOrder ((distinct roots).filter fun r => !(d.ancestors r).any (roots.contains ·))

/-- The matches of all roots are pooled and read off below the outermost ones. -/
def queryRoots (d : Document) (roots : List NodeId) (selector : Selector) (scope : Scope) :
    List NodeId :=
  let found := Std.HashSet.ofList (roots.flatMap (d.queryRoot selector scope))
  ((d.outermost roots).flatMap (d.candidates · scope)).filter found.contains

def query (d : Document) (roots : List NodeId) (selector : Selector) (scope : Scope) :
    List NodeId :=
  match roots with
  | [root] => d.queryRoot selector scope root
  | _ => d.queryRoots roots selector scope

/-- The nodes that a bare selector selects: roots at the top of a tree, and all below them. -/
def select (d : Document) (selector : Selector) : List NodeId :=
  d.query d.liveRoots selector .inclusive

end Document
end DomQuery
