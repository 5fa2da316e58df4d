import DomQuery.Markup.Edit
import DomQuery.Markup.Encoding
import DomQuery.Markup.Foreign
import DomQuery.Markup.Tags
import DomQuery.Markup.Token.RawText

/-!
The state in which a forest is built from tokens. The builder knows the elements it has opened and
never looks at the tree: all it does to the tree is in the list of edits.
-/
namespace DomQuery.Markup.Construction
open Lexer (TextModel Reading)

inductive Mode where
  | initial
  | beforeHtml
  | beforeHead
  | inHead
  | afterHead
  | inBody
  | text
  | inTable
  | inTableText
  | inCaption
  | inColumnGroup
  | inTableBody
  | inRow
  | inCell
  | inTemplate
  | afterBody
  | inFrameset
  | afterFrameset
  | afterAfterBody
  | afterAfterFrameset
  deriving DecidableEq, Repr

structure OpenElement where
  handle : Handle
  ns : Namespace
  name : String
  deriving DecidableEq, Repr

/-- Formatting elements are opened again where text goes on without them, up to the last marker. -/
inductive Formatting where
  | marker
  | element (handle : Handle) (tag : Tag)
  deriving DecidableEq, Repr

/-- A run of text that is blank throughout or holds no blank. -/
structure Run where
  isBlank : Bool
  text : List Char
  deriving DecidableEq, Repr

structure State where
  mode : Mode := .initial
  /-- Where to go on after a text. -/
  resumed : Mode := .initial
  templateModes : List Mode := []
  /-- The innermost element first. -/
  opened : List OpenElement := []
  /-- The latest first. -/
  formatting : List Formatting := []
  head : Option OpenElement := none
  form : Option OpenElement := none
  framesetAllowed : Bool := true
  /-- A line feed at the front of the next text is dropped. -/
  dropsLineFeed : Bool := false
  /-- What belongs elsewhere than directly in a table goes to the table. -/
  fosters : Bool := false
  /-- Runs of text in a table, the latest first. -/
  tableText : List Run := []
  oldLayout : Bool := false
  /-- The latest first. -/
  edits : List Edit := []
  nextHandle : Handle := 0

abbrev Build := StateM State

inductive Item where
  | startTag (tag : Tag)
  | endTag (name : String)
  | comment (text : String)
  | run (run : Run)
  | null
  | endOfFile

inductive Next where
  | done
  | reprocess (mode : Mode)
  | read (reading : Reading)

def element? (handle : Handle) (opened : List OpenElement) : Option OpenElement :=
  opened.find? (·.handle == handle)

namespace OpenElement

def isHtml (name : String) (e : OpenElement) : Bool := e.ns == .html && e.name == name

def isHtmlIn (names : List String) (e : OpenElement) : Bool := e.ns == .html && names.contains e.name

def holdsText (e : OpenElement) : Bool := Foreign.holdsText e.ns e.name

def holdsHtml (e : OpenElement) : Bool := Foreign.holdsHtml e.ns e.name

end OpenElement

/-! Sets of elements -/

def special : OpenElement → Bool := OpenElement.isHtmlIn [
  "address", "applet", "area", "article", "aside", "base", "basefont", "bgsound", "blockquote",
  "body", "br", "button", "caption", "center", "col", "colgroup", "dd", "details", "dir", "div",
  "dl", "dt", "embed", "fieldset", "figcaption", "figure", "footer", "form", "frame", "frameset",
  "h1", "h2", "h3", "h4", "h5", "h6", "head", "header", "hgroup", "hr", "html", "iframe", "img",
  "input", "isindex", "li", "link", "listing", "main", "marquee", "menu", "meta", "nav", "noembed",
  "noframes", "noscript", "object", "ol", "p", "param", "plaintext", "pre", "script", "section",
  "select", "source", "style", "summary", "table", "tbody", "td", "template", "textarea",
  "tfoot", "th", "thead", "title", "tr", "track", "ul", "wbr", "xmp"]

def headings : List String := ["h1", "h2", "h3", "h4", "h5", "h6"]

def tableParts : List String := ["table", "tbody", "tfoot", "thead", "tr"]

def impliedEnds : List String :=
  ["dd", "dt", "li", "option", "optgroup", "p", "rb", "rp", "rt", "rtc"]

/-- The elements that an element cannot be looked for beyond. -/
def defaultScope (e : OpenElement) : Bool :=
  e.isHtmlIn ["applet", "caption", "html", "table", "td", "th", "marquee", "object", "select",
    "template"] || e.holdsText || e.holdsHtml

def listItemScope (e : OpenElement) : Bool := defaultScope e || e.isHtmlIn ["ol", "ul"]

def buttonScope (e : OpenElement) : Bool := defaultScope e || e.isHtml "button"

def tableScope (e : OpenElement) : Bool := e.isHtmlIn ["html", "table", "template"]

def tableBodyContext : OpenElement → Bool :=
  OpenElement.isHtmlIn ["tbody", "tfoot", "thead", "template", "html"]

def tableRowContext : OpenElement → Bool := OpenElement.isHtmlIn ["tr", "template", "html"]

def inScopeOf (wanted scope : OpenElement → Bool) : List OpenElement → Bool
  | [] => false
  | e :: rest => wanted e || (!scope e && inScopeOf wanted scope rest)

/-! The stack of open elements -/

def opened : Build (List OpenElement) := return (← get).opened

def setOpened (elements : List OpenElement) : Build Unit :=
  modify fun s => { s with opened := elements }

def current? : Build (Option OpenElement) := return (← opened).head?

def currentIs (p : OpenElement → Bool) : Build Bool := return (← opened).head?.any p

def hasOpen (p : OpenElement → Bool) : Build Bool := return (← opened).any p

def inScope (wanted scope : OpenElement → Bool) : Build Bool :=
  return inScopeOf wanted scope (← opened)

def pop : Build Unit := modify fun s => { s with opened := s.opened.tail }

def popUpTo (p : OpenElement → Bool) : Build Unit :=
  modify fun s => { s with opened := s.opened.dropWhile (!p ·) }

def popThrough (p : OpenElement → Bool) : Build Unit :=
  modify fun s => { s with opened := (s.opened.dropWhile (!p ·)).tail }

def popThroughNamed (name : String) : Build Unit := popThrough (·.isHtml name)

def closeImplied (names : List String) : Build Unit :=
  modify fun s => { s with opened := s.opened.dropWhile (·.isHtmlIn names) }

def closeImpliedExcept (name : String) : Build Unit := closeImplied (impliedEnds.filter (· != name))

def closeParagraph : Build Unit := do
  closeImpliedExcept "p"
  popThroughNamed "p"

def closeOpenParagraph : Build Unit := do
  if ← inScope (·.isHtml "p") buttonScope then closeParagraph

def removeOpen (handle : Handle) : Build Unit :=
  modify fun s => { s with opened := s.opened.filter (·.handle != handle) }

/-! Edits -/

def edit (e : Edit) : Build Unit := modify fun s => { s with edits := e :: s.edits }

def takeHandle : Build Handle :=
  modifyGet fun s => (s.nextHandle, { s with nextHandle := s.nextHandle + 1 })

def newElement (ns : Namespace) (tag : Tag) : Build OpenElement := do
  let handle ← takeHandle
  edit (.element tag.name ns tag.attributes)
  return ⟨handle, ns, tag.name⟩

/-- Content that is misplaced in a table is for the template or table around it. -/
def fosterPoint : List OpenElement → Option InsertionPoint
  | [] => none
  | e :: rest =>
    if e.isHtml "template" then some (.inside (some e.handle))
    else if e.isHtml "table" then some (.misplaced e.handle (rest.headD e).handle)
    else fosterPoint rest

def placeIn (target : OpenElement) : Build InsertionPoint := do
  let s ← get
  if s.fosters && target.isHtmlIn tableParts then
    return (fosterPoint s.opened).getD (.inside (s.opened.getLast?.map (·.handle)))
  else return .inside (some target.handle)

def currentPlace : Build InsertionPoint := do
  match ← current? with
  | some e => placeIn e
  | none => return .inside none

def appendText (text : List Char) : Build Unit := do
  edit (.insert (← currentPlace) (.text (String.ofList text)))

def appendCommentTo (point : InsertionPoint) (text : String) : Build Unit := do
  let handle ← takeHandle
  edit (.comment text)
  edit (.insert point (.node handle))

def appendComment (text : String) : Build Unit := do appendCommentTo (← currentPlace) text

def rootHandle : Build (Option Handle) := return (← opened).getLast?.map (·.handle)

def insertVoid (ns : Namespace) (tag : Tag) : Build OpenElement := do
  let place ← currentPlace
  let e ← newElement ns tag
  edit (.insert place (.node e.handle))
  return e

def insertIn (ns : Namespace) (tag : Tag) : Build OpenElement := do
  let e ← insertVoid ns tag
  modify fun s => { s with opened := e :: s.opened }
  return e

def insert (tag : Tag) : Build Unit := do let _ ← insertIn .html tag

def insertNamed (name : String) : Build Unit := insert { name }

def insertClosed (tag : Tag) : Build Unit := do let _ ← insertVoid .html tag

/-! Flags and modes -/

def setMode (mode : Mode) : Build Unit := modify fun s => { s with mode }

def forbidFrameset : Build Unit := modify fun s => { s with framesetAllowed := false }

def dropNextLineFeed : Build Unit := modify fun s => { s with dropsLineFeed := true }

def pushTemplateMode (mode : Mode) : Build Unit :=
  modify fun s => { s with templateModes := mode :: s.templateModes }

def popTemplateMode : Build Unit := modify fun s => { s with templateModes := s.templateModes.tail }

def insertText (tag : Tag) (model : TextModel) : Build Next := do
  insert tag
  modify fun s => { s with resumed := s.mode, mode := .text }
  return .read { model }

def fostering {α : Type} (step : Build α) : Build α := do
  modify fun s => { s with fosters := true }
  let a ← step
  modify fun s => { s with fosters := false }
  return a

def modeFor (templateModes : List Mode) (hasHead : Bool) : List OpenElement → Mode
  | [] => .inBody
  | e :: rest =>
    if e.ns != .html then modeFor templateModes hasHead rest
    else match e.name with
    | "td" | "th" => if rest.isEmpty then .inBody else .inCell
    | "tr" => .inRow
    | "tbody" | "thead" | "tfoot" => .inTableBody
    | "caption" => .inCaption
    | "colgroup" => .inColumnGroup
    | "table" => .inTable
    | "template" => templateModes.head?.getD .inBody
    | "head" => if rest.isEmpty then .inBody else .inHead
    | "body" => .inBody
    | "frameset" => .inFrameset
    | "html" => if hasHead then .afterHead else .beforeHead
    | _ => modeFor templateModes hasHead rest

def currentMode : Build Mode := do
  let s ← get
  return modeFor s.templateModes s.head.isSome s.opened

end DomQuery.Markup.Construction
