import DomQuery.Markup.Construction.Formatting

/-!
The rules for content: in the head of a page, in templates and in its body.
-/
namespace DomQuery.Markup.Construction
open Lexer (TextModel)

def headTags : List String :=
  ["base", "basefont", "bgsound", "link", "meta", "noframes", "script", "style", "template", "title"]

def ignored : Build Next := return .done

/-- Whether a template asks to become the shadow tree of the element around it. -/
def asksForShadow (tag : Tag) : Build Bool := do
  let mode := tag.attributes.get? "shadowrootmode"
  return (mode == some "open" || mode == some "closed") && 2 ≤ (← opened).length

/-- No element takes a shadow tree: what was made for one stays unused, and the template is an
element like others. -/
def insertTemplate (tag : Tag) : Build Next := do
  if ← asksForShadow tag then
    let _ ← newElement .html tag
  insert tag
  pushMarker
  forbidFrameset
  setMode .inTemplate
  pushTemplateMode .inTemplate
  return .done

def leaveTemplate : Build Unit := do
  popThroughNamed "template"
  clearToMarker
  popTemplateMode
  setMode (← currentMode)

def endTemplate : Build Next := do
  if ← hasOpen (·.isHtml "template") then leaveTemplate
  return .done

/-- Start tags that have the same rules in the head and, misplaced, in the body. -/
def startHeadTag (tag : Tag) : Build Next := do
  match tag.name with
  | "title" => insertText tag (.escapable tag.name)
  | "script" => insertText tag .script
  | "noframes" | "style" => insertText tag (.raw tag.name)
  | "template" => insertTemplate tag
  | _ =>
    insertClosed tag
    return if tag.namesEncoding then .read { dropsMark := true } else .done

def endOfTemplates : Build Next := do
  if ← hasOpen (·.isHtml "template") then
    leaveTemplate
    return .reprocess (← get).mode
  else return .done

def closeWithImplied (name : String) : Build Unit := do
  closeImplied impliedEnds
  popThroughNamed name

def blocks : List String := [
  "address", "article", "aside", "blockquote", "center", "details", "dialog", "dir", "div", "dl",
  "fieldset", "figcaption", "figure", "footer", "header", "hgroup", "main", "menu", "nav", "ol",
  "p", "search", "section", "summary", "ul"]

def blockEnds : List String := [
  "address", "article", "aside", "blockquote", "button", "center", "details", "dialog", "dir",
  "div", "dl", "fieldset", "figcaption", "figure", "footer", "header", "hgroup", "listing", "main",
  "menu", "nav", "ol", "pre", "search", "section", "select", "summary", "ul"]

def formattingNames : List String := [
  "b", "big", "code", "em", "font", "i", "s", "small", "strike", "strong", "tt", "u"]

def tableOnly : List String := [
  "caption", "col", "colgroup", "frame", "head", "tbody", "td", "tfoot", "th", "thead", "tr"]

def insertItem (tag : Tag) (siblings : List String) : Build Unit := do
  forbidFrameset
  let stops (e : OpenElement) := e.isHtmlIn siblings ||
    (special e && !e.isHtmlIn ["address", "div", "p"])
  match (← opened).find? stops with
  | some e =>
    if e.isHtmlIn siblings then
      closeImpliedExcept e.name
      popThroughNamed e.name
  | none => pure ()
  closeOpenParagraph
  insert tag

def insertForeign (ns : Namespace) (tag : Tag) : Build Unit := do
  let tag := { tag with
    name := Foreign.tagName ns tag.name
    attributes := Foreign.attributes ns tag.attributes }
  if tag.selfClosing then
    let _ ← insertVoid ns tag
  else
    let _ ← insertIn ns tag

def isHidden (tag : Tag) : Bool :=
  (tag.attributes.get? "type").any fun value => Text.asciiLowercase value == "hidden"

def selectInScope : Build Bool := inScope (·.isHtml "select") defaultScope

def closeOption : Build Unit := do
  if ← currentIs (·.isHtml "option") then pop

def startFormTag (tag : Tag) : Build Next := do
  match tag.name with
  | "form" =>
    let inTemplate ← hasOpen (·.isHtml "template")
    if (← get).form.isSome && !inTemplate then ignored
    else
      closeOpenParagraph
      let form ← insertIn .html tag
      if !inTemplate then modify fun s => { s with form := some form }
      return .done
  | "button" =>
    if ← inScope (·.isHtml "button") defaultScope then closeWithImplied "button"
    reconstructFormatting
    insert tag
    forbidFrameset
    return .done
  | "input" =>
    if ← selectInScope then popThroughNamed "select"
    reconstructFormatting
    insertClosed tag
    if !isHidden tag then forbidFrameset
    return .done
  | "textarea" =>
    dropNextLineFeed
    forbidFrameset
    insertText tag (.escapable tag.name)
  | "select" =>
    if ← selectInScope then popThroughNamed "select"
    else
      reconstructFormatting
      insert tag
      forbidFrameset
    return .done
  | "optgroup" =>
    if ← selectInScope then closeImplied impliedEnds else closeOption
    reconstructFormatting
    insert tag
    return .done
  | _ =>
    if ← selectInScope then closeImpliedExcept "optgroup" else closeOption
    reconstructFormatting
    insert tag
    return .done

def startBodyTag (tag : Tag) : Build Next := do
  let name := tag.name
  if headTags.contains name then startHeadTag tag
  else if blocks.contains name then
    closeOpenParagraph
    insert tag
    return .done
  else if headings.contains name then
    closeOpenParagraph
    if ← currentIs (·.isHtmlIn headings) then pop
    insert tag
    return .done
  else if formattingNames.contains name then
    reconstructFormatting
    insertFormatting tag
    return .done
  else if tableOnly.contains name then ignored
  else match name with
  | "html" => ignored
  | "body" =>
    match (← opened).reverse with
    | _ :: body :: _ =>
      if body.isHtml "body" && !(← hasOpen (·.isHtml "template")) then forbidFrameset
    | _ => pure ()
    return .done
  | "frameset" =>
    let s ← get
    match s.opened.reverse with
    | root :: body :: _ =>
      if s.framesetAllowed && body.isHtml "body" then
        edit (.detach body.handle)
        setOpened [root]
        insert tag
        setMode .inFrameset
    | _ => pure ()
    return .done
  | "pre" | "listing" =>
    closeOpenParagraph
    insert tag
    dropNextLineFeed
    forbidFrameset
    return .done
  | "li" =>
    insertItem tag ["li"]
    return .done
  | "dd" | "dt" =>
    insertItem tag ["dd", "dt"]
    return .done
  | "plaintext" =>
    closeOpenParagraph
    insert tag
    return .read { model := .plain }
  | "form" | "button" | "input" | "textarea" | "select" | "optgroup" | "option" =>
    startFormTag tag
  | "a" =>
    closeOpenLink
    reconstructFormatting
    insertFormatting tag
    return .done
  | "nobr" =>
    reconstructFormatting
    if ← inScope (·.isHtml "nobr") defaultScope then
      closeFormatting "nobr"
      reconstructFormatting
    insertFormatting tag
    return .done
  | "applet" | "marquee" | "object" =>
    reconstructFormatting
    insert tag
    pushMarker
    forbidFrameset
    return .done
  | "table" =>
    if !(← get).oldLayout then closeOpenParagraph
    insert tag
    forbidFrameset
    setMode .inTable
    return .done
  | "area" | "br" | "embed" | "img" | "keygen" | "wbr" =>
    reconstructFormatting
    insertClosed tag
    forbidFrameset
    return .done
  | "param" | "source" | "track" =>
    insertClosed tag
    return .done
  | "hr" =>
    closeOpenParagraph
    if ← selectInScope then closeImplied impliedEnds
    insertClosed tag
    forbidFrameset
    return .done
  | "xmp" =>
    closeOpenParagraph
    reconstructFormatting
    forbidFrameset
    insertText tag (.raw name)
  | "iframe" =>
    forbidFrameset
    insertText tag (.raw name)
  | "noembed" | "noscript" => insertText tag (.raw name)
  | "rb" | "rtc" =>
    if ← inScope (·.isHtml "ruby") defaultScope then closeImplied impliedEnds
    insert tag
    return .done
  | "rp" | "rt" =>
    if ← inScope (·.isHtml "ruby") defaultScope then closeImpliedExcept "rtc"
    insert tag
    return .done
  | "math" =>
    insertForeign .mathMl tag
    return .done
  | "svg" =>
    insertForeign .svg tag
    return .done
  | _ =>
    reconstructFormatting
    insert tag
    return .done

/-- Some browsers once knew `image`, and what they meant is `img`. -/
def startInBody (tag : Tag) : Build Next :=
  startBodyTag (if tag.name == "image" then { tag with name := "img" } else tag)

def endForm : Build Next := do
  if ← hasOpen (·.isHtml "template") then
    if ← inScope (·.isHtml "form") defaultScope then closeWithImplied "form"
  else
    let form := (← get).form
    modify fun s => { s with form := none }
    match form with
    | none => pure ()
    | some form =>
      if ← inScope (·.handle == form.handle) defaultScope then
        closeImplied impliedEnds
        removeOpen form.handle
  return .done

def bodyInScope : Build Bool := inScope (·.isHtml "body") defaultScope

def endInBody (name : String) : Build Next := do
  if blockEnds.contains name then
    if ← inScope (·.isHtml name) defaultScope then closeWithImplied name
    return .done
  else if headings.contains name then
    if ← inScope (·.isHtmlIn headings) defaultScope then
      closeImplied impliedEnds
      popThrough (·.isHtmlIn headings)
    return .done
  else if formattingNames.contains name || name == "a" || name == "nobr" then
    closeFormatting name
    return .done
  else match name with
  | "template" => endTemplate
  | "body" =>
    if ← bodyInScope then setMode .afterBody
    return .done
  | "html" => if ← bodyInScope then return .reprocess .afterBody else ignored
  | "form" => endForm
  | "p" =>
    if !(← inScope (·.isHtml "p") buttonScope) then insertNamed "p"
    closeParagraph
    return .done
  | "li" =>
    if ← inScope (·.isHtml "li") listItemScope then
      closeImpliedExcept "li"
      popThroughNamed "li"
    return .done
  | "dd" | "dt" =>
    if ← inScope (·.isHtml name) defaultScope then
      closeImpliedExcept name
      popThroughNamed name
    return .done
  | "applet" | "marquee" | "object" =>
    if ← inScope (·.isHtml name) defaultScope then
      closeWithImplied name
      clearToMarker
    return .done
  | "br" => startInBody { name }
  | _ =>
    closeNearest name
    return .done

def textInBody (run : Run) : Build Next := do
  reconstructFormatting
  if !run.isBlank then forbidFrameset
  appendText run.text
  return .done

def inBody : Item → Build Next
  | .null => ignored
  | .run run => textInBody run
  | .comment text => do
    appendComment text
    return .done
  | .startTag tag => startInBody tag
  | .endTag name => endInBody name
  | .endOfFile => do if (← get).templateModes.isEmpty then ignored else endOfTemplates

def inTemplate : Item → Build Next
  | .null => ignored
  | .endOfFile => endOfTemplates
  | .endTag name => if name == "template" then endTemplate else ignored
  | .startTag tag => do
    if headTags.contains tag.name then startHeadTag tag
    else
      let mode := match tag.name with
        | "caption" | "colgroup" | "tbody" | "tfoot" | "thead" => .inTable
        | "col" => .inColumnGroup
        | "tr" => .inTableBody
        | "td" | "th" => .inRow
        | _ => .inBody
      popTemplateMode
      pushTemplateMode mode
      return .reprocess mode
  | item => inBody item

end DomQuery.Markup.Construction
