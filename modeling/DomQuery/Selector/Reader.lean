import DomQuery.Selector.Lexeme
import DomQuery.Selector.Printer

/-!
Reading a selector: the text is split at its outer commas, each piece becomes lexemes, the lexemes
become compounds and combinators, and these a chain. Only the argument of `:not` is read by the same
reader again; it is shorter than the text around it.
-/
namespace DomQuery.Selector
open Text

/-- What is open at some place of a text: brackets, the innermost first, and a string in them. -/
structure Nesting where
  opened : List Char := []
  string : Option Char := none

def Nesting.isOuter (n : Nesting) : Bool := n.opened.isEmpty && n.string.isNone

/-- Nothing but `]` closes a `[`, and no bracket opens inside it. -/
def Nesting.after (n : Nesting) (c : Char) : Nesting :=
  match n.string with
  | some q => if c == q then { n with string := none } else n
  | none =>
    if isQuote c then if n.opened.isEmpty then n else { n with string := some c }
    else if c == '[' || c == '(' then
      if n.opened.head? == some '[' then n else { n with opened := c :: n.opened }
    else if (c == ']' && n.opened.head? == some '[') || (c == ')' && n.opened.head? == some '(') then
      { n with opened := n.opened.tail }
    else n

def addToFirst (text : List Char) : List (List Char) → List (List Char)
  | [] => [text]
  | piece :: pieces => (text ++ piece) :: pieces

def splitOuter (n : Nesting) : List Char → List (List Char)
  | [] => [[]]
  | ['\\'] => [['\\']]
  | '\\' :: c :: rest => addToFirst ['\\', c] (splitOuter n rest)
  | c :: rest =>
    if c == ',' && n.isOuter then [] :: splitOuter n rest
    else addToFirst [c] (splitOuter (n.after c) rest)

def keyword? : String → Option Part
  | "first-child" => some (.position (.first .child))
  | "last-child" => some (.position (.last .child))
  | "only-child" => some (.position (.only .child))
  | "first-of-type" => some (.position (.first .ofType))
  | "last-of-type" => some (.position (.last .ofType))
  | "only-of-type" => some (.position (.only .ofType))
  | "empty" => some .empty
  | "root" => some .root
  | _ => none

def formulaKeyword? : String → Option (Formula → Position)
  | "nth-child" => some (.nth .child)
  | "nth-last-child" => some (.nthLast .child)
  | "nth-of-type" => some (.nth .ofType)
  | "nth-last-of-type" => some (.nthLast .ofType)
  | _ => none

def pseudoText (doubleColon : Bool) (name : List Char) (argument : Option (List Char)) :
    List Char :=
  (if doubleColon then [':', ':'] else [':']) ++ name ++
    (match argument with
    | none => []
    | some text => '(' :: text ++ [')'])

section Inner
variable (inner : List Char → Except Fault Selector)

/-- The pseudo-class with an argument, if there is one of this name that takes the argument. -/
def withArgument? (name : String) (argument : List Char) : Except Fault (Option Part) :=
  if name == "contains" then
    let text := trim argument
    .ok (some (.contains (String.ofList ((unquote? text).getD (unescape text)))))
  else if name == "not" then do
    let alternatives ← inner argument
    return if alternatives.isEmpty then none else some (.not alternatives)
  else match formulaKeyword? name with
    | some position => .ok ((Formula.ofChars? argument).map fun f => .position (position f))
    | none => .ok none

def pseudoPart (doubleColon : Bool) (written : List Char) (argument : Option (List Char)) :
    Except Fault Part := do
  let name := (unescape written).map Char.toLower
  let known ←
    if doubleColon || name.isEmpty then .ok none
    else match argument with
      | none => .ok (keyword? (String.ofList name))
      | some text => withArgument? inner (String.ofList name) text
  return known.getD (.unmatchable (String.ofList (pseudoText doubleColon written argument)))

inductive Item where
  | combinator (combinator : Combinator)
  | compound (parts : Compound)

/-- Ends a compound. There may be none between two combinators. -/
def endCompound (parts : Compound) (bareSigil : Bool) : Except Fault (List Item) :=
  if !parts.isEmpty then .ok [.compound parts]
  else if bareSigil then .error .danglingSigil
  else .ok []

/-- Groups lexemes into compounds; `parts` and `bareSigil` say what the open compound holds. -/
def items (parts : Compound) (bareSigil : Bool) : List Lexeme → Except Fault (List Item)
  | [] => endCompound parts bareSigil
  | .fault f :: _ => .error f
  | .blank :: rest => do
    let done ← endCompound parts bareSigil
    return done ++ (← items [] false rest)
  | .combinator k :: rest => do
    let done ← endCompound parts bareSigil
    return done ++ .combinator k :: (← items [] false rest)
  | .comma :: _ => do
    let _ ← endCompound parts bareSigil
    throw .strayComma
  | .bareSigil :: rest => items parts true rest
  | .part part :: rest => items (parts ++ [part]) bareSigil rest
  | .pseudo doubleColon name argument :: rest => do
    let part ← pseudoPart inner doubleColon name argument
    items (parts ++ [part]) bareSigil rest

def extend? (left : Chain) : List Item → Option Chain
  | [] => some left
  | .compound parts :: rest => extend? (.step left .descendant parts) rest
  | .combinator k :: .compound parts :: rest => extend? (.step left k parts) rest
  | .combinator _ :: _ => none

def chain? : List Item → Option Chain
  | .compound parts :: rest => extend? (.compound parts) rest
  | _ => none

def readChain (text : List Char) : Except Fault Chain := do
  let items ← items inner [] false (lexemes true text)
  return (chain? items).getD (.unmatchable (String.ofList text))

def readWith (text : List Char) : Except Fault Selector :=
  (((splitOuter {} text).map trim).filter (!·.isEmpty)).mapM (readChain inner)

end Inner

def readWithin : (depth : Nat) → List Char → Except Fault Selector
  | 0 => fun _ => .ok []
  | depth + 1 => readWith (readWithin depth)

/-- The nesting of `:not` is never deeper than the text is long. -/
def read (text : List Char) : Except Fault Selector := readWithin (text.length + 1) text

def parse (text : String) : Except SelectorError Selector :=
  match read text.toList with
  | .ok selector => .ok selector
  | .error fault => .error ⟨fault, text⟩

end DomQuery.Selector
