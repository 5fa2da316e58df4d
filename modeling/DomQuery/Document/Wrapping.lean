import DomQuery.Document.Placement

/-!
Wrapping nodes into copies of a template. A node goes into the innermost of the first elements: the
template itself, its first element child, that one's first element child, and so on.
-/
namespace DomQuery.Document

def innermostWithin (d : Document) : Nat → NodeId → NodeId
  | 0, n => n
  | bound + 1, n =>
    match (d.elementChildren n).head? with
    | some child => d.innermostWithin bound child
    | none => n

def innermost (d : Document) (n : NodeId) : NodeId := d.innermostWithin d.slots.size n

def wrapAt (d : Document) (wrapper first : NodeId) (nodes : List NodeId) : Document :=
  if (d.parent? first).isSome && (d.refusal? (.before first) wrapper).isSome then d.discard wrapper
  else
    let d := if (d.parent? first).isSome then d.put (.before first) wrapper else d
    let inner := d.innermost wrapper
    (d.tryPutAll (.lastIn inner) nodes).adoptTopLevel [wrapper]

def wrapEach (d : Document) (template : NodeId) (nodes : List NodeId) : Document :=
  nodes.foldl (fun d n =>
    let (d, wrapper) := d.copy template true
    d.wrapAt wrapper n [n]) d

def wrapTogether (d : Document) (template : NodeId) (nodes : List NodeId) : Document :=
  match nodes with
  | [] => d
  | first :: _ =>
    let (d, wrapper) := d.copy template true
    d.wrapAt wrapper first nodes

def wrapChildren (d : Document) (template n : NodeId) : Document :=
  let (d, wrapper) := d.copy template true
  let children := d.children n
  if (d.refusal? (.lastIn n) wrapper).isSome then d.discard wrapper
  else
    let d := d.put (.lastIn n) wrapper
    let inner := d.innermost wrapper
    d.tryPutAll (.lastIn inner) children

def wrapInside (d : Document) (template : NodeId) (nodes : List NodeId) : Document :=
  nodes.foldl (fun d n => d.wrapChildren template n) d

end DomQuery.Document
