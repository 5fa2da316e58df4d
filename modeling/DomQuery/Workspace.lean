import DomQuery.Collection.Traversal
import DomQuery.Document.Classes
import DomQuery.Document.Render
import DomQuery.Document.Wrapping
import DomQuery.Markup.Forest

/-!
Several documents at once, one of them current. Collections name their document; content from another
document is copied in, and every change goes through the document it concerns.
-/
namespace DomQuery

structure Workspace where
  documents : Array Document := #[{}]
  current : DomId := 0

namespace Workspace

def document (ws : Workspace) (dom : DomId) : Document := ws.documents.getD dom {}

def update (ws : Workspace) (dom : DomId) (f : Document → Document) : Workspace :=
  { ws with documents := ws.documents.modify dom f }

def setDocument (ws : Workspace) (dom : DomId) (d : Document) : Workspace := ws.update dom fun _ => d

def newDocument (ws : Workspace) : Workspace × DomId :=
  ({ ws with documents := ws.documents.push {} }, ws.documents.size)

/-- Starts over with a fresh current document; the old one stays at hand. -/
def reset (ws : Workspace) : Workspace :=
  let (ws, dom) := ws.newDocument
  { ws with current := dom }

/-! Nodes from markup, selectors, content and targets -/

def parseForest (ws : Workspace) (dom : DomId) (markup : String) : Workspace × List NodeId :=
  let (d, nodes) := (ws.document dom).parse markup
  (ws.setDocument dom d, nodes)

def parse (ws : Workspace) (dom : DomId) (markup : String) : Workspace × Collection :=
  let (ws, nodes) := ws.parseForest dom markup
  (ws.update dom (·.register nodes), .ofNodes dom nodes)

def fragment (ws : Workspace) (dom : DomId) (markup : String) : Workspace × Collection :=
  let (ws, nodes) := ws.parseForest dom markup
  (ws, .ofNodes dom nodes)

def select (ws : Workspace) (dom : DomId) (selector : String) : Except SelectorError Collection := do
  let selector ← Selector.parse selector
  return .ofNodes dom ((ws.document dom).select selector)

def looksLikeMarkup (text : List Char) : Bool :=
  text.head? == some '<' && text.getLast? == some '>'

/-- Markup is read into the current document, and anything else selects there. -/
def query (ws : Workspace) (input : String) : Except SelectorError (Workspace × Collection) :=
  let trimmed := Text.trim input.toList
  if looksLikeMarkup trimmed then .ok (ws.parse ws.current (String.ofList trimmed))
  else (ws.select ws.current input).map fun c => (ws, c)

def importAll (d other : Document) : List NodeId → Document × List NodeId
  | [] => (d, [])
  | n :: rest =>
    let (d, copied) := d.importNode other n
    let (d, copies) := importAll d other rest
    (d, copied :: copies)

def nodesOf (ws : Workspace) (dom : DomId) : Content → Workspace × List NodeId
  | .markup text => ws.parseForest dom text
  | .nodes nodes => (ws, nodes)
  | .collection c =>
    if c.dom = dom then (ws, c.nodes)
    else
      let (d, nodes) := importAll (ws.document dom) (ws.document c.dom) c.nodes
      (ws.setDocument dom d, nodes)

/-- The document and the nodes that a target points at; a selector looks in the given document. -/
def resolve (ws : Workspace) (dom : DomId) : Target → Except SelectorError (DomId × List NodeId)
  | .selector text => (ws.select dom text).map fun c => (dom, c.nodes)
  | .nodes nodes => .ok (dom, nodes)
  | .collection c => .ok (c.dom, c.nodes)

def add (ws : Workspace) (c : Collection) (target : Target) : Except SelectorError Collection := do
  let (dom, nodes) ← ws.resolve c.dom target
  let extra := if dom = c.dom then nodes else []
  return c.derive ((ws.document c.dom).sortByOrder (distinct (c.nodes ++ extra)))

/-! Changes -/

/-- Inserts content at each node of a collection. What was read from markup and found no place is
freed. -/
def insert (ws : Workspace) (c : Collection) (content : Content) (place : Place) : Workspace :=
  let (ws, nodes) := ws.nodesOf c.dom content
  ws.update c.dom fun d =>
    let scratch := if content.isMarkup then d.scratch? nodes else none
    let (d, _) := d.distribute place c.nodes nodes
    d.discardScratch scratch

/-- Inserts a collection at a target; the result holds all that was placed. -/
def insertAt (ws : Workspace) (c : Collection) (target : Target) (place : Place) :
    Except SelectorError (Workspace × Collection) := do
  let (dom, targets) ← ws.resolve c.dom target
  let (ws, nodes) := ws.nodesOf dom (.collection c)
  let (d, placed) := (ws.document dom).distribute place targets nodes
  return (ws.setDocument dom d, c.deriveIn dom placed)

def wrapWith (ws : Workspace) (c : Collection) (content : Content)
    (wrap : Document → NodeId → Document) : Workspace :=
  let (ws, nodes) := ws.nodesOf c.dom content
  ws.update c.dom fun d =>
    let scratch := if content.isMarkup then d.scratch? nodes else none
    match nodes.find? d.isElement with
    | some template => (wrap d template).discardScratch scratch
    | none => d.discardScratch scratch

def wrap (ws : Workspace) (c : Collection) (content : Content) : Workspace :=
  ws.wrapWith c content fun d template => d.wrapEach template c.nodes

def wrapAll (ws : Workspace) (c : Collection) (content : Content) : Workspace :=
  if c.nodes.isEmpty then ws
  else ws.wrapWith c content fun d template => d.wrapTogether template c.nodes

def wrapInner (ws : Workspace) (c : Collection) (content : Content) : Workspace :=
  ws.wrapWith c content fun d template => d.wrapInside template c.nodes

def remove (ws : Workspace) (c : Collection) (filter : Option String) :
    Except SelectorError Workspace := do
  let filter ← parseFilter filter
  return ws.update c.dom fun d =>
    let doomed := d.applyFilter filter c.nodes
    (doomed.foldl Document.detach d).unregister doomed

def empty (ws : Workspace) (c : Collection) : Workspace :=
  ws.update c.dom fun d => c.nodes.foldl Document.clearChildren d

def cloneNodes (ws : Workspace) (c : Collection) : Workspace × Collection :=
  let (d, copies) := (ws.document c.dom).copyAll c.nodes
  (ws.setDocument c.dom d, c.derive copies)

def setText (ws : Workspace) (c : Collection) (text : String) : Workspace :=
  ws.update c.dom fun d => c.nodes.foldl (fun d n => d.setTextContent n text) d

def setMarkup (ws : Workspace) (c : Collection) (markup : String) : Workspace :=
  ws.update c.dom fun d =>
    let elements := c.nodes.filter d.isElement
    let d := elements.foldl Document.clearChildren d
    let (d, nodes) := d.parse markup
    let scratch := d.scratch? nodes
    let (d, _) := d.distribute .append elements nodes
    d.discardScratch scratch

def setAttribute (ws : Workspace) (c : Collection) (name value : String) : Workspace :=
  ws.update c.dom fun d => c.nodes.foldl (fun d n => d.setAttribute n name value) d

def removeAttribute (ws : Workspace) (c : Collection) (name : String) : Workspace :=
  ws.update c.dom fun d => c.nodes.foldl (fun d n => d.removeAttribute n name) d

def setProperty (ws : Workspace) (c : Collection) (name : String) (value : PropertyValue) :
    Workspace :=
  ws.update c.dom fun d => c.nodes.foldl (fun d n => d.setProperty n name value) d

def addClass (ws : Workspace) (c : Collection) (names : String) : Workspace :=
  ws.update c.dom (·.addClass names c.nodes)

def removeClass (ws : Workspace) (c : Collection) (names : String) : Workspace :=
  ws.update c.dom (·.removeClass names c.nodes)

def toggleClass (ws : Workspace) (c : Collection) (names : String) (wanted : Option Bool) :
    Workspace :=
  ws.update c.dom (·.toggleClass names wanted c.nodes)

end Workspace
end DomQuery
