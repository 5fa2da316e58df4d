import DomQuery.Markup.Construction.Body

/-!
The rules for tables. What does not belong into a table is read by the rules of the body, and what
these put into a part of the table goes to the table instead.
-/
namespace DomQuery.Markup.Construction

/-- Content by the rules of the body, kept out of the parts of the table. -/
def misplaced (item : Item) : Build Next := fostering (inBody item)

def textInTable (item : Item) : Build Next := do
  if ← currentIs (·.isHtmlIn tableParts) then
    modify fun s => { s with resumed := s.mode }
    return .reprocess .inTableText
  else misplaced item

def startInTable (tag : Tag) : Build Next := do
  match tag.name with
  | "caption" =>
    popUpTo tableScope
    pushMarker
    insert tag
    setMode .inCaption
    return .done
  | "colgroup" =>
    popUpTo tableScope
    insert tag
    setMode .inColumnGroup
    return .done
  | "col" =>
    popUpTo tableScope
    insertNamed "colgroup"
    return .reprocess .inColumnGroup
  | "tbody" | "tfoot" | "thead" =>
    popUpTo tableScope
    insert tag
    setMode .inTableBody
    return .done
  | "td" | "th" | "tr" =>
    popUpTo tableScope
    insertNamed "tbody"
    return .reprocess .inTableBody
  | "table" =>
    if ← inScope (·.isHtml "table") tableScope then
      popThroughNamed "table"
      return .reprocess (← currentMode)
    else ignored
  | "style" | "script" | "template" => startHeadTag tag
  | "input" =>
    if isHidden tag then
      insertClosed tag
      return .done
    else misplaced (.startTag tag)
  | "form" =>
    if (← get).form.isNone && !(← hasOpen (·.isHtml "template")) then
      let form ← insertVoid .html tag
      modify fun s => { s with form := some form }
    return .done
  | _ => misplaced (.startTag tag)

def endInTable (name : String) : Build Next := do
  match name with
  | "table" =>
    if ← inScope (·.isHtml "table") tableScope then
      popThroughNamed "table"
      setMode (← currentMode)
    return .done
  | "template" => endTemplate
  | "body" | "caption" | "col" | "colgroup" | "html" | "tbody" | "td" | "tfoot" | "th" | "thead"
  | "tr" => ignored
  | _ => misplaced (.endTag name)

def inTable : Item → Build Next
  | .null => textInTable .null
  | .run run => textInTable (.run run)
  | .comment text => do
    appendComment text
    return .done
  | .startTag tag => startInTable tag
  | .endTag name => endInTable name
  | .endOfFile => inBody .endOfFile

/-- Gives out the text that has been held back; only blank text may stay in the table. -/
def flushTableText : Build Unit := do
  let runs := (← get).tableText.reverse
  modify fun s => { s with tableText := [] }
  if runs.all (·.isBlank) then runs.forM fun run => appendText run.text
  else runs.forM fun run => do let _ ← misplaced (.run run)

def inTableText : Item → Build Next
  | .null => ignored
  | .run run => do
    modify fun s => { s with tableText := run :: s.tableText }
    return .done
  | _ => do
    flushTableText
    return .reprocess (← get).resumed

def tableStarts : List String :=
  ["caption", "col", "colgroup", "tbody", "td", "tfoot", "th", "thead", "tr"]

def endCaption (again : Bool) : Build Next := do
  if ← inScope (·.isHtml "caption") tableScope then
    closeWithImplied "caption"
    clearToMarker
    if again then return .reprocess .inTable
    setMode .inTable
  return .done

def inCaption : Item → Build Next
  | .startTag tag =>
    if tableStarts.contains tag.name then endCaption true else inBody (.startTag tag)
  | .endTag name => match name with
    | "caption" => endCaption false
    | "table" => endCaption true
    | "body" | "col" | "colgroup" | "html" | "tbody" | "td" | "tfoot" | "th" | "thead" | "tr" =>
      ignored
    | _ => inBody (.endTag name)
  | item => inBody item

def endColumnGroup (again : Bool) : Build Next := do
  if ← currentIs (·.isHtml "colgroup") then
    pop
    if again then return .reprocess .inTable
    setMode .inTable
  return .done

def inColumnGroup : Item → Build Next
  | .run run => do
    if !run.isBlank then endColumnGroup true
    else
      appendText run.text
      return .done
  | .comment text => do
    appendComment text
    return .done
  | .startTag tag => match tag.name with
    | "html" => ignored
    | "col" => do
      insertClosed tag
      return .done
    | "template" => startHeadTag tag
    | _ => endColumnGroup true
  | .endTag name => match name with
    | "colgroup" => endColumnGroup false
    | "col" => ignored
    | "template" => endTemplate
    | _ => endColumnGroup true
  | .endOfFile => inBody .endOfFile
  | .null => endColumnGroup true

def leaveSection : Build Unit := do
  popUpTo tableBodyContext
  pop
  setMode .inTable

def inTableBody : Item → Build Next
  | .startTag tag => do
    match tag.name with
    | "tr" =>
      popUpTo tableBodyContext
      insert tag
      setMode .inRow
      return .done
    | "td" | "th" =>
      popUpTo tableBodyContext
      insertNamed "tr"
      return .reprocess .inRow
    | "caption" | "col" | "colgroup" | "tbody" | "tfoot" | "thead" => leaveFor
    | _ => inTable (.startTag tag)
  | .endTag name => do
    match name with
    | "tbody" | "tfoot" | "thead" =>
      if ← inScope (·.isHtml name) tableScope then leaveSection
      return .done
    | "table" => leaveFor
    | "body" | "caption" | "col" | "colgroup" | "html" | "td" | "th" | "tr" => ignored
    | _ => inTable (.endTag name)
  | item => inTable item
where
  leaveFor : Build Next := do
    if ← inScope (·.isHtmlIn ["table", "tbody", "tfoot"]) tableScope then
      leaveSection
      return .reprocess .inTable
    else ignored

def endRow (again : Bool) : Build Next := do
  if ← inScope (·.isHtml "tr") tableScope then
    popUpTo tableRowContext
    pop
    if again then return .reprocess .inTableBody
    setMode .inTableBody
  return .done

def inRow : Item → Build Next
  | .startTag tag => do
    match tag.name with
    | "td" | "th" =>
      popUpTo tableRowContext
      insert tag
      setMode .inCell
      pushMarker
      return .done
    | "caption" | "col" | "colgroup" | "tbody" | "tfoot" | "thead" | "tr" => endRow true
    | _ => inTable (.startTag tag)
  | .endTag name => do
    match name with
    | "tr" => endRow false
    | "table" => endRow true
    | "tbody" | "tfoot" | "thead" =>
      if ← inScope (·.isHtml name) tableScope then endRow true else ignored
    | "body" | "caption" | "col" | "colgroup" | "html" | "td" | "th" => ignored
    | _ => inTable (.endTag name)
  | item => inTable item

def cells : List String := ["td", "th"]

def closeCell : Build Next := do
  closeImplied impliedEnds
  popThrough (·.isHtmlIn cells)
  clearToMarker
  return .reprocess .inRow

def inCell : Item → Build Next
  | .startTag tag => do
    if tableStarts.contains tag.name then
      if ← inScope (·.isHtmlIn cells) tableScope then closeCell else ignored
    else inBody (.startTag tag)
  | .endTag name => do
    match name with
    | "td" | "th" =>
      if ← inScope (·.isHtml name) tableScope then
        closeWithImplied name
        clearToMarker
        setMode .inRow
      return .done
    | "body" | "caption" | "col" | "colgroup" | "html" => ignored
    | "table" | "tbody" | "tfoot" | "thead" | "tr" =>
      if ← inScope (·.isHtml name) tableScope then closeCell else ignored
    | _ => inBody (.endTag name)
  | item => inBody item

end DomQuery.Markup.Construction
