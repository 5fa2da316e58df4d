import DomQuery.Markup.Token.RawText

/-!
Reading markup token by token. A tag that the text breaks off is dropped.
-/
namespace DomQuery.Markup.Lexer
open CharacterReference

def normalizeOnto : (done : List Char) → List Char → List Char
  | done, [] => done.reverse
  | done, '\r' :: '\n' :: rest => normalizeOnto ('\n' :: done) rest
  | done, '\r' :: rest => normalizeOnto ('\n' :: done) rest
  | done, c :: rest => normalizeOnto (c :: done) rest

def dropMark : List Char → List Char
  | '\uFEFF' :: rest => rest
  | cs => cs

def normalize (cs : List Char) : List Char := normalizeOnto [] (dropMark cs)

def endsAttributeName (c : Char) : Bool := endsTagName c || c == '='

def tagName (cs : List Char) : String :=
  String.ofList (cs.map fun c => replaceNull c.toLower)

def valueText (cs : List Char) : String := decode true (cs.map replaceNull)

def attributeValue? : List Char → Option (String × List Char)
  | [] => none
  | '>' :: rest => some ("", '>' :: rest)
  | c :: rest =>
    if c == '"' || c == '\'' then
      match rest.dropWhile (· != c) with
      | [] => none
      | _ :: more => some (valueText (rest.takeWhile (· != c)), more)
    else
      let ends (c : Char) := isTagBlank c || c == '>'
      some (valueText ((c :: rest).takeWhile (!ends ·)), (c :: rest).dropWhile (!ends ·))

/-- The first of several attributes with one name counts. -/
def addAttribute (attributes : Entries String) (name value : String) : Entries String :=
  if (attributes.get? name).isSome then attributes else attributes ++ [(name, value)]

def tagRest? (name : String) : (bound : Nat) → Entries String → List Char → Option (Tag × List Char)
  | 0, _, _ => none
  | _, _, [] => none
  | _, attributes, '>' :: rest => some (⟨name, attributes, false⟩, rest)
  | _, attributes, '/' :: '>' :: rest => some (⟨name, attributes, true⟩, rest)
  | bound + 1, attributes, c :: rest =>
    if endsTagName c then tagRest? name bound attributes rest
    else
      let key := tagName (c :: rest.takeWhile (!endsAttributeName ·))
      match (rest.dropWhile (!endsAttributeName ·)).dropWhile isTagBlank with
      | '=' :: more =>
        match attributeValue? (more.dropWhile isTagBlank) with
        | none => none
        | some (value, more) => tagRest? name bound (addAttribute attributes key value) more
      | more => tagRest? name bound (addAttribute attributes key "") more

def tag? (cs : List Char) : Option (Tag × List Char) :=
  tagRest? (tagName (cs.takeWhile (!endsTagName ·))) (cs.length + 1) [] (cs.dropWhile (!endsTagName ·))

def bogusComment (cs : List Char) : List Token × List Char :=
  ([.comment (String.ofList ((cs.takeWhile (· != '>')).map replaceNull))],
    (cs.dropWhile (· != '>')).tail)

def withNulls : (run : List Char) → List Char → List Token
  | [], [] => []
  | run, [] => [.text run.reverse]
  | run, c :: rest =>
    if c == '\x00' then
      if run.isEmpty then .null :: withNulls [] rest
      else .text run.reverse :: .null :: withNulls [] rest
    else withNulls (c :: run) rest

def characterData : (done : List Char) → List Char → List Char × List Char
  | done, [] => (done.reverse, [])
  | done, ']' :: ']' :: '>' :: rest => (done.reverse, rest)
  | done, c :: rest => characterData (c :: done) rest

def declaration (inForeign : Bool) : List Char → List Token × List Char
  | '-' :: '-' :: rest =>
    let (text, rest) := comment rest
    ([.comment (String.ofList text)], rest)
  | cs =>
    if startsWithWord "doctype" cs then
      let (doctype, rest) := Doctype.read (cs.drop 7)
      ([.doctype doctype], rest)
    else if inForeign && "[CDATA[".toList.isPrefixOf cs then
      let (text, rest) := characterData [] (cs.drop 7)
      (withNulls [] text, rest)
    else bogusComment cs

def endTag : List Char → List Token × List Char
  | [] => ([.text ['<', '/']], [])
  | '>' :: rest => ([.fault], rest)
  | c :: rest =>
    if c.isAlpha then
      match tag? (c :: rest) with
      | some (tag, rest) => ([.endTag tag.name], rest)
      | none => ([], [])
    else bogusComment (c :: rest)

def markup (inForeign : Bool) : List Char → List Token × List Char
  | '!' :: rest => declaration inForeign rest
  | '/' :: rest => endTag rest
  | '?' :: rest => bogusComment ('?' :: rest)
  | c :: rest =>
    if c.isAlpha then
      match tag? (c :: rest) with
      | some (tag, rest) => ([.startTag tag], rest)
      | none => ([], [])
    else ([.text ['<']], c :: rest)
  | [] => ([.text ['<']], [])

def isPlainData (c : Char) : Bool := c != '<' && c != '\x00'

def textTokens (text : List Char) : List Token := if text.isEmpty then [] else [.text text]

def referenceTokens (text : List Char) : List Token :=
  let decoded := textTokens (decode false text).toList
  if startsWithOpenNumber text then .fault :: decoded else decoded

def closingTokens (name : String) (text : List Token) : Option (List Char) → List Token × List Char
  | none => (text, [])
  | some rest =>
    match tagRest? name (rest.length + 1) [] rest with
    | some (_, rest) => (text ++ [.endTag name], rest)
    | none => (text, [])

/-- The next tokens of a text that is not at its end; `inForeign` says that the current element is
one of SVG or MathML, where character data may stand. -/
def next (model : TextModel) (inForeign : Bool) (cs : List Char) : List Token × List Char :=
  match model with
  | .data => match cs with
    | '<' :: rest => markup inForeign rest
    | '\x00' :: rest => ([.null], rest)
    | cs => (referenceTokens (cs.takeWhile isPlainData), cs.dropWhile isPlainData)
  | .escapable name =>
    let (text, rest) := rawText name [] cs
    closingTokens name (referenceTokens (text.map replaceNull)) rest
  | .raw name =>
    let (text, rest) := rawText name [] cs
    closingTokens name (textTokens (text.map replaceNull)) rest
  | .script =>
    let (text, rest) := scriptText .outside [] cs
    closingTokens "script" (textTokens (text.map replaceNull)) rest
  | .plain => (textTokens (cs.map replaceNull), [])

end DomQuery.Markup.Lexer
