import DomQuery.Document.Walk
import DomQuery.Markup.Tags

/-!
Writing nodes as markup. The writer goes along the edges of the tree, into each node and out of it
again; a text is escaped as the element around it asks for.
-/
namespace DomQuery

structure RenderOptions where
  /-- Attributes by name instead of in the order in which they are stored. -/
  sortAttributes : Bool := false
  /-- Breaks up end tags of scripts inside scripts. -/
  escapeScriptEnd : Bool := true

inductive TextStyle where
  | escaped
  | ampersandAndLess
  | raw
  | script
  deriving DecidableEq, Repr

namespace Render
open Markup

def escapeChar : Char → List Char
  | '&' => "&amp;".toList
  | '<' => "&lt;".toList
  | '>' => "&gt;".toList
  | c => [c]

def escapeRawChar : Char → List Char
  | '&' => "&amp;".toList
  | '<' => "&lt;".toList
  | c => [c]

def escapeValueChar : Char → List Char
  | '"' => "&quot;".toList
  | c => escapeChar c

def startsScriptEnd (cs : List Char) : Bool :=
  ((cs.take 8).map Char.toLower) == "</script".toList

/-- Writes `<\/script` for each `</script`; `skip` characters belong to one that is written. -/
def guardScript : (skip : Nat) → List Char → List Char
  | _, [] => []
  | skip + 1, _ :: rest => guardScript skip rest
  | 0, c :: rest =>
    if startsScriptEnd (c :: rest) then "<\\/script".toList ++ guardScript 7 rest
    else c :: guardScript 0 rest

def text (style : TextStyle) (data : String) : String :=
  match style with
  | .escaped => String.ofList (data.toList.flatMap escapeChar)
  | .ampersandAndLess => String.ofList (data.toList.flatMap escapeRawChar)
  | .raw => data
  | .script => String.ofList (guardScript 0 data.toList)

def attributeText (name value : String) : String :=
  " " ++ name ++ "=\"" ++ String.ofList (value.toList.flatMap escapeValueChar) ++ "\""

def attributes (options : RenderOptions) (e : Element) : Entries String :=
  if options.sortAttributes then e.attributes.mergeSort fun a b => a.1 ≤ b.1 else e.attributes

def openTag (options : RenderOptions) (e : Element) : String :=
  (attributes options e).foldl (fun out (name, value) => out ++ attributeText name value)
    ("<" ++ e.tag) ++ ">"

def endTag (e : Element) : String := if isVoid e.tag then "" else "</" ++ e.tag ++ ">"

def styleIn (options : RenderOptions) : Option String → TextStyle
  | none => .escaped
  | some tag =>
    if isRawText tag then if options.escapeScriptEnd && isScript tag then .script else .raw
    else if isEscapableRawText tag then .ampersandAndLess
    else .escaped

def opening (options : RenderOptions) (parentTag : Option String) : Kind → String
  | .fragment => ""
  | .element e => openTag options e
  | .text data => text (styleIn options parentTag) data
  | .comment data => "<!--" ++ data ++ "-->"

def closing : Kind → String
  | .element e => endTag e
  | _ => ""

end Render

inductive Edge where
  | enter (node : NodeId)
  | leave (node : NodeId)
  deriving DecidableEq, Repr

namespace Document

def edgesOnto (d : Document) : Nat → NodeId → List Edge → List Edge
  | 0, _, rest => rest
  | bound + 1, n, rest => .enter n :: (d.children n).foldr (d.edgesOnto bound) (.leave n :: rest)

def edges (d : Document) (n : NodeId) : List Edge := d.edgesOnto d.slots.size n []

def innerEdges (d : Document) (n : NodeId) : List Edge :=
  (d.children n).foldr (d.edgesOnto d.slots.size) []

def parentTag? (d : Document) (n : NodeId) : Option String := (d.parent? n).bind d.tag?

def edgeMarkup (d : Document) (options : RenderOptions) : Edge → String
  | .enter n => ((d.kind? n).map (Render.opening options (d.parentTag? n))).getD ""
  | .leave n => ((d.kind? n).map Render.closing).getD ""

def renderEdges (d : Document) (options : RenderOptions) (edges : List Edge) : String :=
  edges.foldl (fun out edge => out ++ d.edgeMarkup options edge) ""

def outerMarkup (d : Document) (n : NodeId) (options : RenderOptions := {}) : String :=
  d.renderEdges options (d.edges n)

def innerMarkup (d : Document) (n : NodeId) (options : RenderOptions := {}) : String :=
  d.renderEdges options (d.innerEdges n)

end Document
end DomQuery
