import DomQuery.Markup.Construction.State

/-!
Formatting elements. They reach beyond the elements around them: text that follows goes into new
copies, and an end tag in the wrong place splits the tree so that every part keeps its formatting.
-/
namespace DomQuery.Markup.Construction

namespace Formatting

def isFor (handle : Handle) : Formatting → Bool
  | .marker => false
  | .element h _ => h == handle

def isMarker : Formatting → Bool
  | .marker => true
  | .element .. => false

def tagFor? (handle : Handle) (entries : List Formatting) : Option Tag :=
  entries.findSome? fun
    | .marker => none
    | .element h tag => if h == handle then some tag else none

def isOpenIn (opened : List OpenElement) : Formatting → Bool
  | .marker => true
  | .element h _ => (element? h opened).isSome

def isLike (tag : Tag) : Formatting → Bool
  | .marker => false
  | .element _ other =>
    tag.name == other.name && tag.attributes.length == other.attributes.length &&
      tag.attributes.all fun (name, value) => other.attributes.get? name == some value

def removeLastLike (tag : Tag) (entries : List Formatting) : List Formatting :=
  let fromEnd := entries.reverse
  (fromEnd.takeWhile (!isLike tag ·) ++ (fromEnd.dropWhile (!isLike tag ·)).tail).reverse

/-- Puts an entry on top of the entry for a node, which is later in time. -/
def addOver (handle : Handle) (entry : Formatting) (entries : List Formatting) : List Formatting :=
  entries.flatMap fun e => if e.isFor handle then [entry, e] else [e]

end Formatting

def setFormatting (f : List Formatting → List Formatting) : Build Unit :=
  modify fun s => { s with formatting := f s.formatting }

def removeFormatting (handle : Handle) : Build Unit :=
  setFormatting (·.filter (!·.isFor handle))

def pushMarker : Build Unit := setFormatting (.marker :: ·)

def clearToMarker : Build Unit := setFormatting fun entries =>
  (entries.dropWhile (!·.isMarker)).tail

def recentFormatting : Build (List Formatting) :=
  return (← get).formatting.takeWhile (!·.isMarker)

def reconstructFormatting : Build Unit := do
  let s ← get
  let closed := s.formatting.takeWhile (!·.isOpenIn s.opened)
  let reopened ← closed.reverse.mapM fun
    | .marker => return .marker
    | .element _ tag => return .element (← insertIn .html tag).handle tag
  setFormatting fun entries => reopened.reverse ++ entries.drop closed.length

/-- Opens a formatting element; of those that are alike, only three are kept in mind. -/
def insertFormatting (tag : Tag) : Build Unit := do
  let recent ← recentFormatting
  if 3 ≤ (recent.filter (Formatting.isLike tag)).length then
    setFormatting fun entries =>
      Formatting.removeLastLike tag recent ++ entries.drop recent.length
  let e ← insertIn .html tag
  setFormatting (.element e.handle tag :: ·)

/-- An end tag without rules of its own closes the nearest element of its name, unless a special
element stands in between. -/
def closeNearest (name : String) : Build Unit := do
  match (← opened).dropWhile fun e => !e.isHtml name && !special e with
  | [] => return
  | e :: rest => if e.isHtml name then setOpened rest

/-- What the walk from the furthest block out to the formatting element has done so far. -/
structure Adoption where
  /-- The elements that stay open, the innermost first. -/
  kept : List OpenElement := []
  /-- The node that goes into the next copy. -/
  last : Handle
  /-- The entry that the copy of the formatting element follows. -/
  below : Option Handle := none

/-- Takes one element between the block and the formatting element; beyond the third, and unless it
is a formatting element itself, it is closed, and else it is replaced by a copy. -/
def adoptThrough (count : Nat) (a : Adoption) (node : OpenElement) : Build Adoption := do
  match Formatting.tagFor? node.handle (← get).formatting with
  | none => return a
  | some tag =>
    if 3 < count then
      removeFormatting node.handle
      return a
    else
      let copy ← newElement .html tag
      setFormatting (·.map fun e => if e.isFor node.handle then .element copy.handle tag else e)
      edit (.detach a.last)
      edit (.insert (.inside (some copy.handle)) (.node a.last))
      return { kept := a.kept ++ [copy], last := copy.handle, below := a.below <|> some copy.handle }

def adoptAll (a : Adoption) : (count : Nat) → List OpenElement → Build Adoption
  | _, [] => return a
  | count, node :: rest => do
    let a ← adoptThrough count a node
    adoptAll a (count + 1) rest

/-- Splits a formatting element around the furthest block inside it: `inside` and `between` are the
open elements within the block and between it and the formatting element, `outer` those around. -/
def splitAround (formatting : OpenElement) (tag : Tag) (block : OpenElement)
    (inside between outer : List OpenElement) : Build Unit := do
  let a ← adoptAll { last := block.handle } 1 between
  edit (.detach a.last)
  let place ← match outer with
    | ancestor :: _ => placeIn ancestor
    | [] => pure (.inside none)
  edit (.insert place (.node a.last))
  let copy ← newElement .html tag
  edit (.moveChildren block.handle copy.handle)
  edit (.insert (.inside (some block.handle)) (.node copy.handle))
  let entry := Formatting.element copy.handle tag
  match a.below with
  | none =>
    setFormatting (·.map fun e => if e.isFor formatting.handle then entry else e)
  | some previous =>
    setFormatting (Formatting.addOver previous entry)
    removeFormatting formatting.handle
  setOpened (inside ++ copy :: block :: a.kept ++ outer)

def adoptRound (name : String) : Build Bool := do
  let s ← get
  let found := (← recentFormatting).findSome? fun
    | .marker => none
    | .element handle tag => if tag.name == name then some (handle, tag) else none
  match found with
  | none =>
    closeNearest name
    return false
  | some (handle, tag) =>
    match element? handle s.opened with
    | none =>
      removeFormatting handle
      return false
    | some formatting =>
      if !inScopeOf (·.handle == handle) defaultScope s.opened then return false
      let within := s.opened.takeWhile (·.handle != handle)
      let outer := s.opened.drop (within.length + 1)
      match within.reverse.find? special with
      | none =>
        setOpened outer
        removeFormatting handle
        return false
      | some block =>
        let inside := within.takeWhile (·.handle != block.handle)
        splitAround formatting tag block inside (within.drop (inside.length + 1)) outer
        return true

def adoptRounds (name : String) : Nat → Build Unit
  | 0 => return
  | rounds + 1 => do
    if ← adoptRound name then adoptRounds name rounds

def closeFormatting (name : String) : Build Unit := do
  let s ← get
  match s.opened with
  | e :: rest =>
    if e.isHtml name && (Formatting.tagFor? e.handle s.formatting).isNone then setOpened rest
    else adoptRounds name 8
  | [] => adoptRounds name 8

def closeOpenLink : Build Unit := do
  let links := (← recentFormatting).findSome? fun
    | .marker => none
    | .element handle tag => if tag.name == "a" then some handle else none
  match links with
  | none => return
  | some handle =>
    closeFormatting "a"
    removeFormatting handle
    removeOpen handle

end DomQuery.Markup.Construction
