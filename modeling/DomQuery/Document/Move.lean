import DomQuery.Document.Walk

/-!
Moving nodes. A move names a node and a spot; it is refused when the spot has no parent, when the
parent cannot have children or when the node would become its own ancestor, and else takes the node
out of its place and puts it there. A refused move changes nothing.
-/
namespace DomQuery

inductive MoveError where
  | notFound
  | hierarchy
  | notAnElement
  | noParent
  deriving DecidableEq, Repr

def MoveError.message : MoveError → String
  | .notFound => "node is not a child of the given parent"
  | .hierarchy => "node cannot be inserted there: " ++
      "it would become its own ancestor or the parent cannot have children"
  | .notAnElement => "node is not an element"
  | .noParent => "node has no parent to insert next to"

/-- A place for a node: at one end of a parent's children, or next to a sibling. -/
inductive Spot where
  | firstIn (parent : NodeId)
  | lastIn (parent : NodeId)
  | before (sibling : NodeId)
  | after (sibling : NodeId)
  deriving DecidableEq, Repr

namespace Spot

def parent? (d : Document) : Spot → Option NodeId
  | .firstIn p => some p
  | .lastIn p => some p
  | .before s => d.parent? s
  | .after s => d.parent? s

/-- A spot next to the node itself is where the node already is. -/
def isNextTo (n : NodeId) : Spot → Bool
  | .before s => s = n
  | .after s => s = n
  | _ => false

def insertInto (n : NodeId) (children : List NodeId) : Spot → List NodeId
  | .firstIn _ => n :: children
  | .lastIn _ => children ++ [n]
  | .before s => children.flatMap fun c => if c = s then [n, c] else [c]
  | .after s => children.flatMap fun c => if c = s then [c, n] else [c]

end Spot

namespace Document

def detach (d : Document) (n : NodeId) : Document :=
  match d.parent? n with
  | none => d
  | some p =>
    (d.modify p fun node => { node with children := node.children.erase n }).modify n
      fun node => { node with parent := none }

def clearChildren (d : Document) (n : NodeId) : Document :=
  (d.children n).foldl detach d

def accepts (d : Document) (parent n : NodeId) : Bool :=
  !d.isLeaf parent && parent ≠ n && !d.isWithin parent n

def refusal? (d : Document) (spot : Spot) (n : NodeId) : Option MoveError :=
  match spot.parent? d with
  | none => some .noParent
  | some p => if spot.isNextTo n || d.accepts p n then none else some .hierarchy

def put (d : Document) (spot : Spot) (n : NodeId) : Document :=
  if spot.isNextTo n then d
  else match spot.parent? d with
  | none => d
  | some p =>
    ((d.detach n).modify p fun node =>
      { node with children := spot.insertInto n node.children }).modify n
      fun node => { node with parent := some p }

/-- Puts a node at a spot unless the spot refuses it. -/
def tryPut (d : Document) (spot : Spot) (n : NodeId) : Document :=
  if (d.refusal? spot n).isSome then d else d.put spot n

def tryPutAll (d : Document) (spot : Spot) (nodes : List NodeId) : Document :=
  nodes.foldl (fun d n => d.tryPut spot n) d

def move (d : Document) (spot : Spot) (n : NodeId) : Except MoveError Document :=
  match d.refusal? spot n with
  | some e => .error e
  | none => .ok (d.put spot n)

def insertBefore (d : Document) (parent n : NodeId) : Option NodeId → Except MoveError Document
  | none => d.move (.lastIn parent) n
  | some s => if d.parent? s = some parent then d.move (.before s) n else .error .notFound

def removeChild (d : Document) (parent n : NodeId) : Except MoveError Document :=
  if d.parent? n = some parent then .ok (d.detach n) else .error .notFound

def replaceChild (d : Document) (parent new old : NodeId) : Except MoveError Document :=
  if d.parent? old ≠ some parent then .error .notFound
  else if new = old then .ok d
  else match d.refusal? (.before old) new with
  | some e => .error e
  | none => .ok ((d.put (.before old) new).detach old)

def setTextContent (d : Document) (n : NodeId) (text : String) : Document :=
  match d.kind? n with
  | some (.text _) => d.modify n fun node => { node with kind := .text text }
  | some (.comment _) => d.modify n fun node => { node with kind := .comment text }
  | _ =>
    let d := d.clearChildren n
    if text.isEmpty then d
    else
      let (d, t) := d.create (.text text)
      d.put (.lastIn n) t

def discard (d : Document) (n : NodeId) : Document :=
  let doomed := d.subtree n
  doomed.foldl free (d.detach n)

def discardIfDrained (d : Document) (n : NodeId) : Document :=
  if d.isFragment n && (d.children n).isEmpty then d.discard n else d

/-! Changes of data that only an element can take. -/

def onElement (d : Document) (n : NodeId) (change : Document → Document) :
    Except MoveError Document :=
  if d.isElement n then .ok (change d) else .error .notAnElement

/-! The list of roots. -/

def liveRoots (d : Document) : List NodeId := d.roots.filter d.isTopLevel

def register (d : Document) (nodes : List NodeId) : Document :=
  { d with roots := nodes.foldl (fun roots n =>
      if roots.contains n then roots else roots ++ [n]) d.roots }

def unregister (d : Document) (nodes : List NodeId) : Document :=
  { d with roots := d.roots.filter (!nodes.contains ·) }

def clearRoots (d : Document) : Document := { d with roots := [] }

end Document
end DomQuery
