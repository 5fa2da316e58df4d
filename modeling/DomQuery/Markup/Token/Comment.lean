import DomQuery.Markup.CharacterReference

/-!
Comments end at `-->` or `--!>`. One that is not closed ends with the text; a closing that was begun
there does not belong to it.
-/
namespace DomQuery.Markup.Lexer

def replaceNull (c : Char) : Char := if c == '\x00' then CharacterReference.replacement else c

inductive Closing where
  | none
  | dash
  | dashes
  | bang

def Closing.text : Closing → List Char
  | .none => []
  | .dash => ['-']
  | .dashes => ['-', '-']
  | .bang => ['-', '-', '!']

/-- `done` holds the comment so far, the last character first, without the closing that has begun. -/
def commentFrom : Closing → (done : List Char) → List Char → List Char × List Char
  | _, done, [] => (done.reverse, [])
  | .none, done, '-' :: rest => commentFrom .dash done rest
  | .dash, done, '-' :: rest => commentFrom .dashes done rest
  | .dashes, done, '-' :: rest => commentFrom .dashes ('-' :: done) rest
  | .dashes, done, '>' :: rest => (done.reverse, rest)
  | .dashes, done, '!' :: rest => commentFrom .bang done rest
  | .bang, done, '>' :: rest => (done.reverse, rest)
  | .bang, done, '-' :: rest => commentFrom .dash ('!' :: '-' :: '-' :: done) rest
  | closing, done, c :: rest =>
    commentFrom .none (replaceNull c :: (closing.text.reverse ++ done)) rest

def comment : List Char → List Char × List Char
  | '>' :: rest => ([], rest)
  | '-' :: '>' :: rest => ([], rest)
  | cs => commentFrom .none [] cs

end DomQuery.Markup.Lexer
