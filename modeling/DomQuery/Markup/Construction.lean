import DomQuery.Markup.Construction.Page
import DomQuery.Markup.Token.Lexer
import DomQuery.Text.Blank

/-!
From markup to edits: the text is read token by token, and each token is taken by the rules of the
mode that construction is in.
-/
namespace DomQuery.Markup.Construction
open Lexer (Reading)

def isRunBlank (c : Char) : Bool := Text.isAsciiBlank c

def runsFrom : (pending : Option Run) → List Char → List Run
  | none, [] => []
  | some run, [] => [{ run with text := run.text.reverse }]
  | none, c :: rest => runsFrom (some ⟨isRunBlank c, [c]⟩) rest
  | some run, c :: rest =>
    if isRunBlank c == run.isBlank then runsFrom (some { run with text := c :: run.text }) rest
    else { run with text := run.text.reverse } :: runsFrom (some ⟨isRunBlank c, [c]⟩) rest

/-- Takes an item through the modes it calls for, at most `bound` of them. -/
def process (item : Item) : (bound : Nat) → Build Reading
  | 0 => return {}
  | bound + 1 => do
    let next ← if isForeign item (← current?) then stepForeign item else stepByMode item
    match next with
    | .done => return {}
    | .read reading => return reading
    | .reprocess mode =>
      setMode mode
      process item bound

/-- Each open element can send an item through a few modes. -/
def processItem (item : Item) : Build Reading := do
  process item (64 + 8 * (← opened).length)

def processText (text : List Char) (dropsLineFeed : Bool) : Build Unit := do
  let text := match text with
    | '\n' :: rest => if dropsLineFeed then rest else text
    | _ => text
  (runsFrom none text).forM fun run => do let _ ← processItem (.run run)

def processToken (token : Token) : Build Reading := do
  let dropsLineFeed := (← get).dropsLineFeed
  modify fun s => { s with dropsLineFeed := false }
  match token with
  | .doctype doctype =>
    if (← get).mode == .initial then
      modify fun s => { s with oldLayout := doctype.isOld, mode := .beforeHtml }
    return {}
  | .startTag tag => processItem (.startTag tag)
  | .endTag name => processItem (.endTag name)
  | .comment text => processItem (.comment text)
  | .text text =>
    processText text dropsLineFeed
    return {}
  | .null => processItem .null
  | .fault => return {}
  | .endOfFile => processItem .endOfFile

def processTokens (reading : Reading) : List Token → Build Reading
  | [] => return reading
  | token :: rest => do processTokens (← processToken token) rest

/-- Reads on; every round takes something off the text. -/
def readFrom : (bound : Nat) → Reading → List Char → State → State
  | 0, _, _, s => s
  | _, _, [], s => s
  | bound + 1, reading, cs, s =>
    let inForeign := s.opened.head?.any (·.ns != .html)
    let (tokens, rest) := Lexer.next reading.model inForeign cs
    let (reading, s) := (processTokens {} tokens).run s
    readFrom bound reading (if reading.dropsMark then Lexer.dropMark rest else rest) s

/-- The edits that build the page that a markup text describes. -/
@[irreducible]
def edits (markup : String) : List Edit :=
  let cs := Lexer.normalize markup.toList
  let s := readFrom (cs.length + 1) {} cs {}
  let (_, s) := (processItem .endOfFile).run s
  s.edits.reverse

end DomQuery.Markup.Construction
