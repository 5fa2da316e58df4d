import DomQuery.Markup.Token.Comment
import DomQuery.Markup.Token.Doctype

/-!
Text inside elements that hold no other elements. It ends at an end tag with the name of the element;
in a script an end tag does not count where a comment has opened another script.
-/
namespace DomQuery.Markup.Lexer

inductive TextModel where
  /-- Tags and references. -/
  | data
  /-- References, and the end tag of the element. -/
  | escapable (element : String)
  /-- Nothing but the end tag of the element. -/
  | raw (element : String)
  | script
  /-- No tag ever ends this text. -/
  | plain
  deriving DecidableEq, Repr

structure Reading where
  model : TextModel := .data
  /-- A mark of byte order at the front is dropped. -/
  dropsMark : Bool := false
  deriving DecidableEq, Repr

def endsTagName (c : Char) : Bool := isTagBlank c || c == '/' || c == '>'

def startsWithName (name : String) (cs : List Char) : Bool :=
  startsWithWord name cs && (cs.drop name.length).head?.any endsTagName

def startsEndTag (name : String) : List Char → Bool
  | '/' :: rest => startsWithName name rest
  | _ => false

def rawText (name : String) : (done : List Char) → List Char → List Char × Option (List Char)
  | done, [] => (done.reverse, none)
  | done, c :: rest =>
    if c == '<' && startsEndTag name rest then (done.reverse, some (rest.drop (name.length + 1)))
    else rawText name (c :: done) rest

/-- Where in a script the text is: in a comment, or in a script that was opened in a comment. The
number says how many hyphens have just been seen, two or more counting as two. -/
inductive ScriptPlace where
  | outside
  | comment (hyphens : Nat)
  | nested (hyphens : Nat)

def ScriptPlace.after (place : ScriptPlace) (c : Char) (rest : List Char) : ScriptPlace :=
  match place with
  | .outside => if c == '<' && startsWithWord "!--" rest then .comment 0 else .outside
  | .comment hyphens =>
    if c == '-' then .comment (min 2 (hyphens + 1))
    else if c == '>' && hyphens == 2 then .outside
    else if c == '<' && startsWithName "script" rest then .nested 0
    else .comment 0
  | .nested hyphens =>
    if c == '-' then .nested (min 2 (hyphens + 1))
    else if c == '>' && hyphens == 2 then .outside
    else if c == '<' && startsEndTag "script" rest then .comment 0
    else .nested 0

def ScriptPlace.mayEnd : ScriptPlace → Bool
  | .nested _ => false
  | _ => true

def scriptText :
    ScriptPlace → (done : List Char) → List Char → List Char × Option (List Char)
  | _, done, [] => (done.reverse, none)
  | place, done, c :: rest =>
    if c == '<' && place.mayEnd && startsEndTag "script" rest then
      (done.reverse, some (rest.drop 7))
    else scriptText (place.after c rest) (c :: done) rest

end DomQuery.Markup.Lexer
