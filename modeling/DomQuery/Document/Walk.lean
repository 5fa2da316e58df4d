import DomQuery.Document.Basic
import DomQuery.Text.Blank
import DomQuery.Text.Lowercase

/-!
Looking around in a document. No path is longer than the store, so the walks up and down are bounded
by the number of slots.
-/
namespace DomQuery.Document
open Text

def parentElement? (d : Document) (n : NodeId) : Option NodeId :=
  (d.parent? n).filter d.isElement

def firstChild? (d : Document) (n : NodeId) : Option NodeId := (d.children n).head?

def lastChild? (d : Document) (n : NodeId) : Option NodeId := (d.children n).getLast?

def elementChildren (d : Document) (n : NodeId) : List NodeId := (d.children n).filter d.isElement

/-- The children of the node's parent; a node without parent has no siblings. -/
def brood (d : Document) (n : NodeId) : List NodeId :=
  match d.parent? n with
  | some p => d.children p
  | none => []

/-- The siblings before a node, nearest first. -/
def preceding (d : Document) (n : NodeId) : List NodeId := ((d.brood n).takeWhile (· ≠ n)).reverse

def following (d : Document) (n : NodeId) : List NodeId := ((d.brood n).dropWhile (· ≠ n)).tail

def precedingElements (d : Document) (n : NodeId) : List NodeId :=
  (d.preceding n).filter d.isElement

def followingElements (d : Document) (n : NodeId) : List NodeId :=
  (d.following n).filter d.isElement

def ancestorsWithin (d : Document) : Nat → NodeId → List NodeId
  | 0, _ => []
  | bound + 1, n =>
    match d.parent? n with
    | none => []
    | some p => p :: d.ancestorsWithin bound p

/-- The strict ancestors, nearest first, the fragment that holds the tree included. -/
def ancestors (d : Document) (n : NodeId) : List NodeId := d.ancestorsWithin d.slots.size n

def elementAncestors (d : Document) (n : NodeId) : List NodeId :=
  ((d.ancestors n).takeWhile (!d.isFragment ·)).filter d.isElement

def top (d : Document) (n : NodeId) : NodeId := (d.ancestors n).getLastD n

def isWithin (d : Document) (n ancestor : NodeId) : Bool := (d.ancestors n).contains ancestor

def isTopLevel (d : Document) (n : NodeId) : Bool := (d.parent? n).all d.isFragment

def subtreeOnto (d : Document) : Nat → NodeId → List NodeId → List NodeId
  | 0, _, rest => rest
  | bound + 1, n, rest => n :: (d.children n).foldr (d.subtreeOnto bound) rest

def subtree (d : Document) (n : NodeId) : List NodeId := d.subtreeOnto d.slots.size n []

def descendants (d : Document) (n : NodeId) : List NodeId := (d.subtree n).tail

def textContent (d : Document) (n : NodeId) : String :=
  (d.subtree n).foldl (fun out m => match d.kind? m with
    | some (.text data) => out ++ data
    | some (.comment data) => out ++ data
    | _ => out) ""

def innerText (d : Document) (n : NodeId) : String :=
  (d.descendants n).foldl (fun out m => match d.text? m with
    | some data => out ++ data
    | none => out) ""

/-- Whether a list of words names a class, whatever the case of its letters. -/
def listsClass (list wanted : String) : Bool := (words list).any (sameIgnoringCase · wanted)

def hasClass (d : Document) (n : NodeId) (name : String) : Bool :=
  (d.attribute? n "class").any (listsClass · name)

end DomQuery.Document
