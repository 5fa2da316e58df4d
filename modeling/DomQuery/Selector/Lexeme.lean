import DomQuery.Selector.Basic
import DomQuery.Selector.Escape
import DomQuery.Selector.Error

/-!
The lexemes of one chain. A pseudo-class keeps its argument as text, because the argument of `:not`
is a selector of its own. A bracket or string that is never closed is a lexeme too, always the last
one, so that faults further left are found first.
-/
namespace DomQuery.Selector
open Text

inductive Lexeme where
  | blank
  | combinator (combinator : Combinator)
  /-- A comma that separates nothing. -/
  | comma
  /-- A `.` or `#` without a name. -/
  | bareSigil
  | part (part : Part)
  /-- The name is kept as it is written, and so is the text between the parentheses. -/
  | pseudo (doubleColon : Bool) (name : List Char) (argument : Option (List Char))
  | fault (fault : Fault)

def explicitCombinator? : Char → Option Combinator
  | '>' => some .child
  | '+' => some .nextSibling
  | '~' => some .subsequentSibling
  | _ => none

def endsCompound (c : Char) : Bool :=
  isBlank c || c == ',' || (explicitCombinator? c).isSome

def startsTag (c : Char) : Bool := (isNameChar c && !c.isDigit) || c == '\\'

def isQuote (c : Char) : Bool := c == '"' || c == '\''

def nameSpan : List Char → List Char × List Char
  | [] => ([], [])
  | ['\\'] => (['\\'], [])
  | '\\' :: c :: rest => let (name, more) := nameSpan rest; ('\\' :: c :: name, more)
  | c :: rest =>
    if isNameChar c then let (name, more) := nameSpan rest; (c :: name, more)
    else ([], c :: rest)

inductive Enclosure where
  | closed (inside rest : List Char)
  | unclosed (inString : Bool)

def Enclosure.push (c : Char) : Enclosure → Enclosure
  | .closed inside rest => .closed (c :: inside) rest
  | e => e

/-- Reads up to the bracket that closes a text opened before. Inside it, `opening` opens a further
level if it is a character; quotes hide brackets, and a backslash hides any character. -/
def enclosed (opening : Option Char) (closing : Char) :
    (level : Nat) → (string : Option Char) → List Char → Enclosure
  | _, string, [] => .unclosed string.isSome
  | _, string, ['\\'] => .unclosed string.isSome
  | level, string, '\\' :: c :: rest =>
    ((enclosed opening closing level string rest).push c).push '\\'
  | level, some q, c :: rest =>
    (enclosed opening closing level (if c == q then none else some q) rest).push c
  | level, none, c :: rest =>
    if isQuote c then (enclosed opening closing level (some c) rest).push c
    else if some c == opening then (enclosed opening closing (level + 1) none rest).push c
    else if c == closing then
      match level with
      | 0 => .closed [] rest
      | level + 1 => (enclosed opening closing level none rest).push c
    else (enclosed opening closing level none rest).push c

/-- Text that could not be understood reaches up to the end of the compound or an open bracket. -/
def endsJunk (c : Char) : Bool := endsCompound c || c == '['

def endsAttributeName (c : Char) : Bool :=
  isBlank c || c == '=' || c == '~' || c == '|' || c == '^' || c == '$' || c == '*' || c == '!'

def comparison? : List Char → Option (Comparison × List Char)
  | '=' :: rest => some (.equals, rest)
  | '*' :: '=' :: rest => some (.contains, rest)
  | '^' :: '=' :: rest => some (.startsWith, rest)
  | '$' :: '=' :: rest => some (.endsWith, rest)
  | '~' :: '=' :: rest => some (.word, rest)
  | '|' :: '=' :: rest => some (.dash, rest)
  | _ => none

def attributeValue? (raw : List Char) : Option (List Char) :=
  match unquote? raw with
  | some value => some value
  | none =>
    if raw.isEmpty || raw.any isBlank || raw.any isQuote then none else some (unescape raw)

def attributeTest? (body : List Char) : Option AttributeTest :=
  let body := trim body
  let name := String.ofList (unescape (body.takeWhile (!endsAttributeName ·)))
  let rest := trimLeft (body.dropWhile (!endsAttributeName ·))
  if name.isEmpty then none
  else if rest.isEmpty then some ⟨name, .present, ""⟩
  else do
    let (comparison, raw) ← comparison? rest
    let value ← attributeValue? (trim raw)
    some ⟨name, comparison, String.ofList value⟩

def attributePart (body : List Char) : Part :=
  match attributeTest? body with
  | some test => .attribute test
  | none => .unmatchable (String.ofList ('[' :: body ++ [']']))

theorem nameSpan_append (cs : List Char) : (nameSpan cs).1 ++ (nameSpan cs).2 = cs := by
  fun_induction nameSpan cs <;> simp_all

theorem nameSpan_length_le (cs : List Char) : (nameSpan cs).2.length ≤ cs.length := by
  have h := congrArg List.length (nameSpan_append cs)
  simp only [List.length_append] at h
  omega

theorem nameSpan_cons {c : Char} (h : isNameChar c) (hc : c ≠ '\\') (cs : List Char) :
    nameSpan (c :: cs) = (c :: (nameSpan cs).1, (nameSpan cs).2) := by
  rw [nameSpan]
  · simp [h]
  · intro hslash; exact absurd hslash hc
  · intro _ _ hslash; exact absurd hslash hc

theorem nameSpan_length_lt {c : Char} {cs : List Char} (h : startsTag c) :
    (nameSpan (c :: cs)).2.length < (c :: cs).length := by
  by_cases hc : c = '\\'
  · subst hc
    cases cs with
    | nil => simp [nameSpan]
    | cons d rest =>
      have := nameSpan_length_le rest
      simp only [nameSpan, List.length_cons]
      omega
  · have hn : isNameChar c := by
      simp only [startsTag, Bool.or_eq_true, Bool.and_eq_true, beq_iff_eq, hc, or_false] at h
      exact h.1
    have := nameSpan_length_le cs
    rw [nameSpan_cons hn hc]
    simp only [List.length_cons]
    omega

theorem Enclosure.push_eq_closed {c : Char} {e : Enclosure} {inside rest : List Char} :
    e.push c = .closed inside rest ↔ ∃ i, e = .closed i rest ∧ inside = c :: i := by
  cases e with
  | closed i r => simp [Enclosure.push, and_comm, and_assoc, eq_comm (a := c :: i)]
  | unclosed b => simp [Enclosure.push]

theorem enclosed_length_lt {opening : Option Char} {closing : Char} {level : Nat}
    {string : Option Char} {cs inside rest : List Char}
    (h : enclosed opening closing level string cs = .closed inside rest) :
    inside.length + rest.length < cs.length := by
  fun_induction enclosed opening closing level string cs generalizing inside with
  | case1 => simp at h
  | case2 => simp at h
  | case3 _ _ _ _ ih =>
    obtain ⟨i, hi, rfl⟩ := Enclosure.push_eq_closed.1 h
    obtain ⟨j, hj, rfl⟩ := Enclosure.push_eq_closed.1 hi
    have := ih hj
    simp only [List.length_cons]
    omega
  | case7 => simp_all
  | case4 | case5 | case6 | case8 | case9 =>
    rename_i ih
    obtain ⟨i, hi, rfl⟩ := Enclosure.push_eq_closed.1 h
    have := ih hi
    simp only [List.length_cons]
    omega

def sigilLexeme (sigil : Char) (name : String) : Lexeme :=
  if name.isEmpty then .bareSigil
  else .part (if sigil == '.' then .className name else .id name)

def attributeLexeme (rest : List Char) : Lexeme × List Char :=
  match enclosed none ']' 0 none rest with
  | .closed body more => (.part (attributePart body), more)
  | .unclosed inString =>
    (.fault (if inString then .unterminatedString else .unclosedAttribute), [])

def argumentLexeme (doubleColon : Bool) (name : List Char) : List Char → Lexeme × List Char
  | '(' :: inside =>
    match enclosed (some '(') ')' 0 none inside with
    | .closed argument more => (.pseudo doubleColon name (some argument), more)
    | .unclosed inString =>
      (.fault (if inString then .unterminatedString else .unclosedParenthesis), [])
  | more => (.pseudo doubleColon name none, more)

def pseudoLexeme (doubleColon : Bool) (rest : List Char) : Lexeme × List Char :=
  argumentLexeme doubleColon (nameSpan rest).1 (nameSpan rest).2

/-- The lexeme that starts with a character, and what follows it; `fresh` says that no part of the
compound has been seen yet, which is where a tag name may stand. -/
def lexeme (fresh : Bool) (c : Char) (rest : List Char) : Lexeme × List Char :=
  if isBlank c then (.blank, rest)
  else match explicitCombinator? c with
  | some k => (.combinator k, rest)
  | none =>
    if c == ',' then (.comma, rest)
    else if c == '*' then (.part .universal, rest)
    else if c == '.' || c == '#' then
      (sigilLexeme c (String.ofList (unescape (nameSpan rest).1)), (nameSpan rest).2)
    else if c == '[' then attributeLexeme rest
    else if c == ':' then
      if rest.head? == some ':' then pseudoLexeme true rest.tail else pseudoLexeme false rest
    else if startsTag c && fresh then
      (.part (.tag (String.ofList (unescape (nameSpan (c :: rest)).1))), (nameSpan (c :: rest)).2)
    else
      (.part (.unmatchable (String.ofList (c :: rest.takeWhile (!endsJunk ·)))),
        rest.dropWhile (!endsJunk ·))

def Lexeme.separates : Lexeme → Bool
  | .blank => true
  | .combinator _ => true
  | .comma => true
  | _ => false

theorem attributeLexeme_length_le (rest : List Char) :
    (attributeLexeme rest).2.length ≤ rest.length := by
  unfold attributeLexeme
  split
  · rename_i h
    have := enclosed_length_lt h
    simp only
    omega
  · simp

theorem argumentLexeme_length_le (doubleColon : Bool) (name rest : List Char) :
    (argumentLexeme doubleColon name rest).2.length ≤ rest.length := by
  unfold argumentLexeme
  split
  · split
    · rename_i h
      have := enclosed_length_lt h
      simp only [List.length_cons]
      omega
    · simp
  · simp

theorem pseudoLexeme_length_le (doubleColon : Bool) (rest : List Char) :
    (pseudoLexeme doubleColon rest).2.length ≤ rest.length :=
  Nat.le_trans (argumentLexeme_length_le ..) (nameSpan_length_le rest)

/-- Every lexeme takes at least its first character. -/
theorem lexeme_length_le (fresh : Bool) (c : Char) (rest : List Char) :
    (lexeme fresh c rest).2.length ≤ rest.length := by
  have hname := nameSpan_length_le rest
  have hattribute := attributeLexeme_length_le rest
  have hpseudo := pseudoLexeme_length_le false rest
  have helement := pseudoLexeme_length_le true rest.tail
  have hjunk := (List.dropWhile_sublist (!endsJunk ·) (l := rest)).length_le
  have htag (h : startsTag c) := @nameSpan_length_lt c rest h
  grind [lexeme]

def lexemes (fresh : Bool) : List Char → List Lexeme
  | [] => []
  | c :: rest =>
    let first := lexeme fresh c rest
    first.1 :: lexemes first.1.separates first.2
  termination_by cs => cs.length
  decreasing_by exact Nat.lt_succ_of_le (lexeme_length_le fresh c rest)

end DomQuery.Selector
