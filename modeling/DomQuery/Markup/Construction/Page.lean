import DomQuery.Markup.Construction.Table

/-!
The rules around the content: how a page begins and ends, framesets, and foreign elements.
-/
namespace DomQuery.Markup.Construction

def initial : Item → Build Next
  | .run run => do
    if run.isBlank then ignored else begin
  | .comment text => do
    appendCommentTo (.inside none) text
    return .done
  | _ => begin
where
  begin : Build Next := do
    modify fun s => { s with oldLayout := true }
    return .reprocess .beforeHtml

def insertRoot (tag : Tag) : Build Unit := do
  let root ← newElement .html tag
  edit (.insert (.inside none) (.node root.handle))
  setOpened [root]

def pageEnds : List String := ["body", "html", "br"]

def beforeHtml : Item → Build Next
  | .run run => do
    if run.isBlank then ignored else begin
  | .comment text => do
    appendCommentTo (.inside none) text
    return .done
  | .startTag tag => do
    if tag.name == "html" then
      insertRoot tag
      setMode .beforeHead
      return .done
    else begin
  | .endTag name => if name == "head" || pageEnds.contains name then begin else ignored
  | _ => begin
where
  begin : Build Next := do
    insertRoot { name := "html" }
    return .reprocess .beforeHead

def insertHead (tag : Tag) : Build Unit := do
  let head ← insertIn .html tag
  modify fun s => { s with head := some head }

def beforeHead : Item → Build Next
  | .run run => do
    if run.isBlank then ignored else begin
  | .comment text => do
    appendComment text
    return .done
  | .startTag tag => do
    match tag.name with
    | "html" => ignored
    | "head" =>
      insertHead tag
      setMode .inHead
      return .done
    | _ => begin
  | .endTag name => if name == "head" || pageEnds.contains name then begin else ignored
  | _ => begin
where
  begin : Build Next := do
    insertHead { name := "head" }
    return .reprocess .inHead

def inHead : Item → Build Next
  | .run run => do
    if run.isBlank then
      appendText run.text
      return .done
    else leave
  | .comment text => do
    appendComment text
    return .done
  | .startTag tag => do
    if headTags.contains tag.name then startHeadTag tag
    else match tag.name with
    | "html" | "head" => ignored
    | "noscript" => insertText tag (.raw tag.name)
    | _ => leave
  | .endTag name => do
    match name with
    | "head" =>
      pop
      setMode .afterHead
      return .done
    | "template" => endTemplate
    | _ => if pageEnds.contains name then leave else ignored
  | _ => leave
where
  leave : Build Next := do
    pop
    return .reprocess .afterHead

/-- Content of the head behind the head: the head is opened again for it. -/
def lateHeadTag (tag : Tag) : Build Next := do
  match (← get).head with
  | none => ignored
  | some head =>
    setOpened (head :: (← opened))
    let next ← startHeadTag tag
    removeOpen head.handle
    return next

def afterHead : Item → Build Next
  | .run run => do
    if run.isBlank then
      appendText run.text
      return .done
    else begin
  | .comment text => do
    appendComment text
    return .done
  | .startTag tag => do
    if headTags.contains tag.name then lateHeadTag tag
    else match tag.name with
    | "html" | "head" => ignored
    | "body" =>
      insert tag
      forbidFrameset
      setMode .inBody
      return .done
    | "frameset" =>
      insert tag
      setMode .inFrameset
      return .done
    | _ => begin
  | .endTag name => do
    if name == "template" then endTemplate
    else if pageEnds.contains name then begin
    else ignored
  | _ => begin
where
  begin : Build Next := do
    insertNamed "body"
    return .reprocess .inBody

def inText : Item → Build Next
  | .run run => do
    appendText run.text
    return .done
  | .endOfFile => do
    pop
    return .reprocess (← get).resumed
  | .endTag name => do
    pop
    setMode (← get).resumed
    return if name == "script" then .read { dropsMark := true } else .done
  | _ => ignored

def afterBody : Item → Build Next
  | .run run => if run.isBlank then textInBody run else return .reprocess .inBody
  | .comment text => do
    appendCommentTo (.inside (← rootHandle)) text
    return .done
  | .startTag tag => if tag.name == "html" then ignored else return .reprocess .inBody
  | .endTag name => do
    if name == "html" then
      setMode .afterAfterBody
      return .done
    else return .reprocess .inBody
  | .endOfFile => ignored
  | .null => return .reprocess .inBody

def blankInFrameset (run : Run) : Build Next := do
  if run.isBlank then appendText run.text
  return .done

def inFrameset : Item → Build Next
  | .run run => blankInFrameset run
  | .comment text => do
    appendComment text
    return .done
  | .startTag tag => do
    match tag.name with
    | "frameset" =>
      insert tag
      return .done
    | "frame" =>
      insertClosed tag
      return .done
    | "noframes" => startHeadTag tag
    | _ => ignored
  | .endTag name => do
    if name == "frameset" && 2 ≤ (← opened).length then
      pop
      if !(← currentIs (·.isHtml "frameset")) then setMode .afterFrameset
    return .done
  | _ => ignored

def afterFrameset : Item → Build Next
  | .run run => blankInFrameset run
  | .comment text => do
    appendComment text
    return .done
  | .startTag tag => if tag.name == "noframes" then startHeadTag tag else ignored
  | .endTag name => do
    if name == "html" then setMode .afterAfterFrameset
    return .done
  | _ => ignored

def afterAfterBody : Item → Build Next
  | .run run => if run.isBlank then textInBody run else return .reprocess .inBody
  | .comment text => do
    appendCommentTo (.inside none) text
    return .done
  | .startTag tag => if tag.name == "html" then ignored else return .reprocess .inBody
  | .endOfFile => ignored
  | _ => return .reprocess .inBody

def afterAfterFrameset : Item → Build Next
  | .run run => if run.isBlank then textInBody run else ignored
  | .comment text => do
    appendCommentTo (.inside none) text
    return .done
  | .startTag tag => if tag.name == "noframes" then startHeadTag tag else ignored
  | _ => ignored

def step (mode : Mode) (item : Item) : Build Next :=
  match mode with
  | .initial => initial item
  | .beforeHtml => beforeHtml item
  | .beforeHead => beforeHead item
  | .inHead => inHead item
  | .afterHead => afterHead item
  | .inBody => inBody item
  | .text => inText item
  | .inTable => inTable item
  | .inTableText => inTableText item
  | .inCaption => inCaption item
  | .inColumnGroup => inColumnGroup item
  | .inTableBody => inTableBody item
  | .inRow => inRow item
  | .inCell => inCell item
  | .inTemplate => inTemplate item
  | .afterBody => afterBody item
  | .inFrameset => inFrameset item
  | .afterFrameset => afterFrameset item
  | .afterAfterBody => afterAfterBody item
  | .afterAfterFrameset => afterAfterFrameset item

def stepByMode (item : Item) : Build Next := do step (← get).mode item

def isForeign (item : Item) : Option OpenElement → Bool
  | none => false
  | some e =>
    if e.ns == .html then false
    else match item with
    | .endOfFile => false
    | .run _ | .null => !e.holdsText && !e.holdsHtml
    | .startTag tag =>
      !(e.holdsText && tag.name != "mglyph" && tag.name != "malignmark") && !e.holdsHtml &&
        !(e.ns == .mathMl && e.name == "annotation-xml" && tag.name == "svg")
    | _ => true

def breakOut (item : Item) : Build Next := do
  popUpTo fun e => e.ns == .html || e.holdsText || e.holdsHtml
  stepByMode item

/-- An end tag closes the nearest foreign element of its name; the search goes on among the elements
of HTML by their own rules. -/
def endForeign (name : String) : (first : Bool) → List OpenElement → Build Next
  | _, [] => ignored
  | _, [_] => ignored
  | first, e :: rest => do
    if !first && e.ns == .html then stepByMode (.endTag name)
    else if Text.asciiLowercase e.name == name then
      setOpened rest
      return .done
    else endForeign name false rest

def stepForeign (item : Item) : Build Next := do
  match item with
  | .null =>
    appendText [CharacterReference.replacement]
    return .done
  | .run run =>
    if !run.isBlank then forbidFrameset
    appendText run.text
    return .done
  | .comment text =>
    appendComment text
    return .done
  | .startTag tag =>
    if Foreign.breaksOut tag then breakOut item
    else
      insertForeign (((← current?).map (·.ns)).getD .html) tag
      return .done
  | .endTag name =>
    if name == "br" || name == "p" then breakOut item
    else endForeign name true (← opened)
  | .endOfFile => ignored

end DomQuery.Markup.Construction
