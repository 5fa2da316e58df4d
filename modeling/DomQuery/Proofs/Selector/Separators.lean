import DomQuery.Proofs.Selector.Canonical
import DomQuery.Proofs.Selector.Splitter

/-!
Which commas separate. The splitter cuts a selector at its commas before the reader sees the chains. A
comma that the reader meets between two lexemes of a chain has been hidden from the splitter: by a
parenthesis that no pseudo-class has opened, by a backslash in text that could not be understood, or by
a bracket in the argument of a pseudo-class. Nothing else makes the two disagree.
-/
namespace DomQuery.Selector
open Text

variable {fresh loose : Bool} {s : Splitter} {text more cs piece name : List Char} {l : Lexeme}
  {c : Char}

namespace Lexeme

def isComma : Lexeme → Bool
  | .comma => true
  | _ => false

def isJunk : Lexeme → Bool
  | .part (.unmatchable text) => text.toList.head? != some '['
  | _ => false

def isCall : Lexeme → Bool
  | .pseudo _ _ (some _) => true
  | _ => false

def isPart : Lexeme → Bool
  | .part _ => true
  | _ => false

end Lexeme

/-- A lexeme in its place, with the splitter before and behind it. -/
structure Passage where
  lexeme : Lexeme
  before : Splitter
  behind : Splitter
  next : Option Char

def passages (fresh : Bool) (s : Splitter) : List Char → List Passage
  | [] => []
  | c :: rest =>
    let taken := lexeme fresh c rest
    let behind := s.behind ((c :: rest).take (rest.length + 1 - taken.2.length))
    ⟨taken.1, s, behind, taken.2.head?⟩ :: passages taken.1.separates behind taken.2
  termination_by cs => cs.length
  decreasing_by exact Nat.lt_succ_of_le (lexeme_length_le fresh c rest)

namespace Passage

/-- The reader knows no escapes in text that it does not understand, but the splitter does. -/
def hidesComma (p : Passage) : Bool :=
  p.lexeme.isJunk && p.behind.escaped && p.behind.nesting.isOuter && p.next == some ','

/-- Behind such text the splitter may miss a bracket, and then sees what is inside it. -/
def isHiddenBracket (p : Passage) : Bool := p.lexeme.isPart && p.before.escaped

end Passage

/-- Whether there is a comma inside of something that a passage of the given kind has opened for the
splitter; `inside` says that it is open. -/
def hasCommaInside (opens : Passage → Bool) (inside : Bool) : List Passage → Bool
  | [] => false
  | p :: ps =>
    (inside && p.lexeme.isComma) ||
      hasCommaInside opens (!p.behind.nesting.isOuter && (inside || opens p)) ps

/-- A comma inside parentheses that belong to no pseudo-class. -/
def hasLooseComma (piece : List Char) : Bool :=
  hasCommaInside (·.lexeme.isJunk) false (passages true {} piece)

/-- A comma that only the splitter takes for a part of something larger. For the reader an argument ends
at the parenthesis that closes it; for the splitter a bracket may hide that parenthesis. -/
def hasHiddenComma (piece : List Char) : Bool :=
  (passages true {} piece).any Passage.hidesComma ||
    hasCommaInside Passage.isHiddenBracket false (passages true {} piece) ||
    hasCommaInside (·.lexeme.isCall) false (passages true {} piece)

theorem Takes.passages_append (h : Takes fresh text l more) (s : Splitter) :
    passages fresh s (text ++ more) =
      ⟨l, s, s.behind text, more.head?⟩ :: passages l.separates (s.behind text) more := by
  obtain ⟨c, cs, rfl, hlexeme⟩ := h.lexeme_eq
  have htake : (c :: (cs ++ more)).take ((cs ++ more).length + 1 - more.length) = c :: cs := by
    rw [← List.cons_append]
    exact List.take_left' (by simp; omega)
  rw [List.cons_append, passages, hlexeme]
  simp only [htake]

/-! What a lexeme does to the splitter. -/

theorem isJunk_junk (hc : endsJunk c = false) :
    (Lexeme.part (.unmatchable (String.ofList (c :: cs)))).isJunk := by
  simp [Lexeme.isJunk, (endsJunk_eq_false.1 hc).2.2.2]

theorem isJunk_or_escaped (h : Takes fresh text l more) (hmore : more ≠ []) :
    (l.isJunk ∧ ∀ c ∈ more.head?, endsJunk c) ∨ Escaped (fun _ => True) text := by
  have hname {name : List Char} (hname : nameSpan (name ++ more) = (name, more)) :
      Escaped (fun _ => True) name := (escaped_of_nameSpan hname hmore).mono fun _ _ => trivial
  have hcolons (doubleColon : Bool) :
      Escaped (fun _ => True) (if doubleColon then [':', ':'] else [':']) := by
    cases doubleColon
    · exact .plain trivial (by decide) .nil
    · exact .plain trivial (by decide) (.plain trivial (by decide) .nil)
  cases h with
  | junk hc _ _ _ hends => exact .inl ⟨isJunk_junk hc, hends⟩
  | fault => exact absurd rfl hmore
  | blank hc =>
    refine .inr (.plain trivial ?_ .nil)
    rintro rfl
    exact absurd hc (by decide)
  | combinator hc =>
    refine .inr (.plain trivial ?_ .nil)
    rintro rfl
    cases hc
  | comma => exact .inr (.plain trivial (by decide) .nil)
  | universal => exact .inr (.plain trivial (by decide) .nil)
  | bareSigil hsigil hspan =>
    refine .inr (.plain trivial ?_ (hname hspan))
    rcases hsigil with rfl | rfl <;> decide
  | className hspan => exact .inr (.plain trivial (by decide) (hname hspan))
  | id hspan => exact .inr (.plain trivial (by decide) (hname hspan))
  | bracket hbody =>
    have hclose : Escaped (fun _ => True) [']'] := .plain trivial (by decide) .nil
    exact .inr (.plain trivial (by decide) ((escaped_of_enclosed hbody).append hclose))
  | @pseudo doubleColon name _ hspan =>
    exact .inr (((hcolons doubleColon).append (hname hspan)).append .nil)
  | @call doubleColon name argument _ hspan _ hargument =>
    have hclose : Escaped (fun _ => True) [')'] := .plain trivial (by decide) .nil
    have hparenthesised : Escaped (fun _ => True) ('(' :: argument ++ [')']) :=
      .plain trivial (by decide) ((escaped_of_enclosed hargument).append hclose)
    have hwhole : Escaped (fun _ => True) name := (escaped_of_call hspan).mono fun _ _ => trivial
    exact .inr (((hcolons doubleColon).append hwhole).append hparenthesised)
  | tag _ _ hspan => exact .inr (hname hspan)

theorem escaped_behind (h : Takes fresh text l more) (hmore : more ≠ [])
    (hs : s.escaped → ∀ c ∈ text.head?, endsJunk c) (hbehind : (s.behind text).escaped) :
    l.isJunk ∧ ∀ c ∈ more.head?, endsJunk c := by
  refine (isJunk_or_escaped h hmore).resolve_right fun hescaped => ?_
  obtain ⟨n, escaped⟩ := s
  cases escaped with
  | false => simp [hescaped.escaped_behind n] at hbehind
  | true =>
    cases hescaped with
    | nil =>
      obtain ⟨c, cs, hnil, -⟩ := h.lexeme_eq
      cases hnil
    | plain _ _ hrest => simp [Splitter.after_escaped, hrest.escaped_behind n] at hbehind
    | pair => exact absurd (hs rfl '\\' rfl) (by decide)

theorem after_outer_of_isNameChar (h : isNameChar c) : Nesting.after {} c = {} := by
  have hbracket : c ≠ '[' := by rintro rfl; exact absurd h (by decide)
  have hparenthesis : c ≠ '(' := by rintro rfl; exact absurd h (by decide)
  simp [Nesting.after, hbracket, hparenthesis]

theorem behind_name (h : Escaped (isNameChar ·) name) : ({} : Splitter).behind name = {} :=
  (h.mono fun _ => after_outer_of_isNameChar).behind

theorem behind_colons (doubleColon : Bool) :
    ({} : Splitter).behind (if doubleColon then [':', ':'] else [':']) = {} := by
  cases doubleColon <;> rfl

theorem behind_eq_outer (h : Takes fresh text l more) (hmore : more ≠ []) (hjunk : ¬ l.isJunk)
    (hcall : ¬ l.isCall) : ({} : Splitter).behind text = {} := by
  have hnamed {name : List Char} (hname : nameSpan (name ++ more) = (name, more)) :
      ({} : Splitter).behind name = {} := behind_name (escaped_of_nameSpan hname hmore)
  cases h with
  | junk hc => exact absurd (isJunk_junk hc) hjunk
  | fault => exact absurd rfl hmore
  | blank hc => exact behind_blanks (by simpa using hc)
  | combinator hc =>
    unfold explicitCombinator? at hc
    split at hc <;> first | rfl | cases hc
  | comma => rfl
  | universal => rfl
  | bareSigil hsigil hname =>
    have hrest := hnamed hname
    rcases hsigil with rfl | rfl <;> exact hrest
  | className hname =>
    have hrest := hnamed hname
    exact hrest
  | id hname =>
    have hrest := hnamed hname
    exact hrest
  | bracket hbody =>
    have hinside := behind_of_enclosed hbody rfl rfl rfl
    rw [List.cons_append, Splitter.behind_cons, Splitter.behind_append]
    exact congrArg (Splitter.behind · [']']) hinside
  | @pseudo doubleColon name _ hname =>
    rw [pseudoText, List.append_nil, Splitter.behind_append, behind_colons, hnamed hname]
  | call => exact absurd rfl hcall
  | tag _ _ hname => exact hnamed hname

theorem behind_escaped (h : Takes fresh text l more) (hmore : more ≠ []) (hc : c ∈ text.head?)
    (hends : endsJunk c) (hcomma : c ≠ ',') (hpart : ¬ l.isPart) :
    (Splitter.behind ⟨{}, true⟩ text).nesting = {} := by
  have hcolon (doubleColon : Bool) (name : List Char) (argument : Option (List Char))
      (hc : c ∈ (pseudoText doubleColon name argument).head?) : c = ':' := by
    cases doubleColon <;> exact (Option.some.inj hc).symm
  cases h with
  | blank | combinator | universal => rfl
  | comma => exact absurd (Option.some.inj hc).symm hcomma
  | bareSigil hsigil =>
    obtain rfl := Option.some.inj hc
    rcases hsigil with rfl | rfl <;> exact absurd hends (by decide)
  | pseudo =>
    obtain rfl := hcolon _ _ _ hc
    exact absurd hends (by decide)
  | call =>
    obtain rfl := hcolon _ _ _ hc
    exact absurd hends (by decide)
  | fault => exact absurd rfl hmore
  | _ => exact absurd rfl hpart

/-! The way of both through a chain. -/

def Passage.opens (p : Passage) : Bool :=
  p.lexeme.isJunk || (p.isHiddenBracket || p.lexeme.isCall)

/-- The reader stands between two lexemes. Unless something is open that is nothing to the reader,
nothing is open for the splitter; and a backslash that it has just met hides no comma. -/
structure Together (inside : Bool) (s : Splitter) (more : List Char) : Prop where
  outer : more ≠ [] → inside = false → s.nesting = {}
  ends : s.escaped → ∀ c ∈ more.head?, endsJunk c
  ne : inside = false → s.escaped → ∀ c ∈ more.head?, c ≠ ','

namespace Together
variable {inside : Bool}

theorem not_isComma (h : Together inside s (text ++ more)) (htakes : Takes fresh text l more)
    (huncut : Uncut s (text ++ more)) (hinside : inside → ¬ l.isComma) : ¬ l.isComma := by
  cases inside with
  | true => exact hinside rfl
  | false =>
    intro hl
    cases htakes with
    | comma =>
      have houter : s.nesting = {} := h.outer (List.cons_ne_nil _ _) rfl
      have hescaped : ¬ s.escaped := fun hs => h.ne rfl hs ',' rfl rfl
      refine huncut.1 rfl ?_
      obtain ⟨n, escaped⟩ := s
      simp_all
    | _ => cases hl

theorem behind_nesting (h : Together false s (text ++ more)) (htakes : Takes fresh text l more)
    (hmore : more ≠ []) (hopens : ¬ Passage.opens ⟨l, s, s.behind text, more.head?⟩) :
    (s.behind text).nesting = {} := by
  obtain ⟨c, cs, rfl, -⟩ := htakes.lexeme_eq
  simp only [Passage.opens, Passage.isHiddenBracket, Bool.or_eq_true, Bool.and_eq_true, not_or,
    not_and] at hopens
  obtain ⟨n, escaped⟩ := s
  obtain rfl : n = {} := h.outer (List.cons_ne_nil _ _) rfl
  cases escaped with
  | true =>
    exact behind_escaped htakes hmore rfl (h.ends rfl c rfl) (h.ne rfl rfl c rfl)
      fun hpart => hopens.2.1 hpart rfl
  | false => exact congrArg Splitter.nesting (behind_eq_outer htakes hmore hopens.1 hopens.2.2)

theorem step (h : Together inside s (text ++ more)) (htakes : Takes fresh text l more)
    (hhides : ¬ Passage.hidesComma ⟨l, s, s.behind text, more.head?⟩) :
    Together (!(s.behind text).nesting.isOuter &&
      (inside || Passage.opens ⟨l, s, s.behind text, more.head?⟩)) (s.behind text) more := by
  have hhead : ∀ c ∈ text.head?, c ∈ (text ++ more).head? := by
    intro c hc
    rw [List.head?_append, hc]
    rfl
  have houter (hmore : more ≠ []) (hnot : (!(s.behind text).nesting.isOuter &&
      (inside || Passage.opens ⟨l, s, s.behind text, more.head?⟩)) = false) :
      (s.behind text).nesting = {} := by
    rw [Bool.and_eq_false_iff, Bool.not_eq_false', Bool.or_eq_false_iff, Nesting.isOuter_iff] at hnot
    rcases hnot with hnot | ⟨rfl, hopens⟩
    · exact hnot
    · exact h.behind_nesting htakes hmore (by simp [hopens])
  have hescaped (hmore : more ≠ []) (hescaped : (s.behind text).escaped) :
      l.isJunk ∧ ∀ c ∈ more.head?, endsJunk c :=
    escaped_behind htakes hmore (fun hs c hc => h.ends hs c (hhead c hc)) hescaped
  have hne {c : Char} (hc : c ∈ more.head?) : more ≠ [] := by
    rintro rfl
    cases hc
  refine ⟨houter, fun hs c hc => (hescaped (hne hc) hs).2 c hc, fun hnot hs c hc => ?_⟩
  have hl := (hescaped (hne hc) hs).1
  have hnesting := houter (hne hc) hnot
  simp only [Passage.hidesComma, hl, hs, hnesting, show more.head? = some c from hc] at hhides
  simpa [Nesting.isOuter] using hhides

theorem not_isComma_of_mem_lexemes (h : Together inside s cs) (huncut : Uncut s cs)
    (hhides : ∀ p ∈ passages fresh s cs, ¬ p.hidesComma)
    (hinside : hasCommaInside Passage.opens inside (passages fresh s cs) = false) :
    ∀ l ∈ lexemes fresh cs, ¬ l.isComma := by
  induction hlength : cs.length using Nat.strongRecOn generalizing inside fresh s cs with
  | ind k ih =>
    by_cases hcs : cs = []
    · subst hcs
      rw [lexemes]
      exact List.forall_mem_nil _
    obtain ⟨text, l, more, rfl, hlt, htakes, hlexemes⟩ := exists_takes_lexemes fresh hcs
    rw [htakes.passages_append] at hinside hhides
    rw [hasCommaInside, Bool.or_eq_false_iff, Bool.and_eq_false_iff] at hinside
    obtain ⟨hhide, hhides⟩ := List.forall_mem_cons.1 hhides
    have hcomma : ¬ l.isComma := h.not_isComma htakes huncut fun hl => by simpa [hl] using hinside.1
    have hrest := h.step htakes hhide
    rw [hlexemes, List.forall_mem_cons]
    exact ⟨hcomma, ih more.length (hlength ▸ hlt) hrest (uncut_append.1 huncut).2 hhides hinside.2
      rfl⟩

end Together

/-! The causes one by one. -/

theorem hasCommaInside_or {f g : Passage → Bool} {a b : Bool} {ps : List Passage} :
    hasCommaInside (fun p => f p || g p) (a || b) ps =
      (hasCommaInside f a ps || hasCommaInside g b ps) := by
  induction ps generalizing a b with
  | nil => rfl
  | cons p ps ih =>
    have hinside : (!p.behind.nesting.isOuter && (a || b || (f p || g p))) =
        (!p.behind.nesting.isOuter && (a || f p) || !p.behind.nesting.isOuter && (b || g p)) := by
      grind
    rw [hasCommaInside, hasCommaInside, hasCommaInside, hinside, ih]
    grind

theorem exists_isComma_of_hasCommaInside {f : Passage → Bool} {inside : Bool} {ps : List Passage}
    (h : hasCommaInside f inside ps) : ∃ p ∈ ps, p.lexeme.isComma := by
  induction ps generalizing inside with
  | nil => cases h
  | cons p ps ih =>
    rw [hasCommaInside, Bool.or_eq_true, Bool.and_eq_true] at h
    rcases h with h | h
    · exact ⟨p, List.mem_cons_self, h.2⟩
    · obtain ⟨q, hq, hcomma⟩ := ih h
      exact ⟨q, List.mem_cons_of_mem p hq, hcomma⟩

theorem map_lexeme_passages (fresh : Bool) (s : Splitter) (cs : List Char) :
    (passages fresh s cs).map (·.lexeme) = lexemes fresh cs := by
  fun_induction passages fresh s cs with
  | case1 => rw [lexemes, List.map_nil]
  | case2 => rw [lexemes.eq_2, List.map_cons]; congr

theorem exists_isComma_of_hidesComma {p : Passage} (h : p ∈ passages fresh s cs)
    (hp : p.hidesComma) : ∃ l ∈ lexemes fresh cs, l.isComma := by
  induction hlength : cs.length using Nat.strongRecOn generalizing fresh s cs with
  | ind k ih =>
    by_cases hcs : cs = []
    · subst hcs
      rw [passages] at h
      cases h
    obtain ⟨text, l, more, rfl, hlt, htakes, hlexemes⟩ := exists_takes_lexemes fresh hcs
    rw [htakes.passages_append] at h
    rw [hlexemes]
    cases List.mem_cons.1 h with
    | inl heq =>
      have hnext : more.head? = some ',' := by
        simp only [Passage.hidesComma, Bool.and_eq_true, beq_iff_eq] at hp
        simpa [heq] using hp.2
      obtain ⟨rest, rfl⟩ := List.head?_eq_some_iff.1 hnext
      have hcomma : .comma ∈ lexemes l.separates (',' :: rest) := by
        have htakes : Takes l.separates [','] .comma rest := .comma
        exact htakes.lexemes_append ▸ List.mem_cons_self
      exact ⟨.comma, List.mem_cons_of_mem l hcomma, rfl⟩
    | inr h =>
      obtain ⟨l', hl', hcomma⟩ := ih more.length (hlength ▸ hlt) h rfl
      exact ⟨l', List.mem_cons_of_mem l hl', hcomma⟩

/-- The reader meets a comma in a chain for one of these reasons, and always for one of them. -/
theorem exists_isComma_iff (h : Uncut {} piece) :
    (∃ l ∈ lexemes true piece, l.isComma) ↔ hasLooseComma piece ∨ hasHiddenComma piece := by
  constructor
  · rintro ⟨l, hl, hcomma⟩
    by_contra hnone
    simp only [hasLooseComma, hasHiddenComma, Bool.or_eq_true, not_or, List.any_eq_true, not_exists,
      not_and, Bool.not_eq_true] at hnone
    obtain ⟨hjunk, ⟨hhides, hbracket⟩, hcall⟩ := hnone
    have hinside : hasCommaInside Passage.opens (false || (false || false))
        (passages true {} piece) = false := by
      unfold Passage.opens
      rw [hasCommaInside_or, hasCommaInside_or, hjunk, hbracket, hcall]
      rfl
    have hstart : Together false {} piece := ⟨fun _ _ => rfl, nofun, nofun⟩
    exact hstart.not_isComma_of_mem_lexemes h (by simpa using hhides) hinside l hl hcomma
  · have hinside {f : Passage → Bool} (h : hasCommaInside f false (passages true {} piece)) :
        ∃ l ∈ lexemes true piece, l.isComma := by
      obtain ⟨p, hp, hcomma⟩ := exists_isComma_of_hasCommaInside h
      exact ⟨p.lexeme, map_lexeme_passages true {} piece ▸ List.mem_map_of_mem hp, hcomma⟩
    rintro (h | h)
    · exact hinside h
    · simp only [hasHiddenComma, Bool.or_eq_true, List.any_eq_true] at h
      rcases h with (⟨p, hp, hhides⟩ | h) | h
      · exact exists_isComma_of_hidesComma hp hhides
      · exact hinside h
      · exact hinside h

/-! All chains of a selector. -/

def Lexeme.notArgument? : Lexeme → Option (List Char)
  | .pseudo false name (some argument) =>
    if String.ofList ((unescape name).map Char.toLower) == "not" then some argument else none
  | _ => none

def chainTextsWithin : (depth : Nat) → List Char → List (List Char)
  | 0, _ => []
  | depth + 1, text => (chainTexts text).flatMap fun piece =>
      piece :: ((lexemes true piece).filterMap Lexeme.notArgument?).flatMap (chainTextsWithin depth)

/-- The texts of all chains, at any depth of `:not`. -/
def allChainTexts (text : List Char) : List (List Char) := chainTextsWithin (text.length + 1) text

variable {f : Fault} {inner : List Char → Except Fault Selector} {parts : Compound}
  {bareSigil doubleColon : Bool} {ls : List Lexeme} {depth : Nat}

theorem ne_strayComma_of_lexeme (h : (lexeme fresh c cs).1 = .fault f) : f ≠ .strayComma := by
  rintro rfl
  have hargument (doubleColon : Bool) (name rest : List Char) :
      (argumentLexeme doubleColon name rest).1 ≠ .fault .strayComma := by
    unfold argumentLexeme
    split
    · split
      · nofun
      · split <;> nofun
    · nofun
  have hattribute : (attributeLexeme cs).1 ≠ .fault .strayComma := by
    unfold attributeLexeme
    split
    · nofun
    · split <;> nofun
  grind [lexeme, sigilLexeme, pseudoLexeme]

theorem not_mem_lexemes_strayComma : .fault .strayComma ∉ lexemes fresh cs := by
  induction hlength : cs.length using Nat.strongRecOn generalizing fresh cs with
  | ind k ih =>
    cases cs with
    | nil =>
      rw [lexemes]
      exact List.not_mem_nil
    | cons c cs =>
      rw [lexemes.eq_2, List.mem_cons, not_or]
      have hlt := Nat.lt_succ_of_le (lexeme_length_le fresh c cs)
      exact ⟨fun h => ne_strayComma_of_lexeme h.symm rfl, ih _ (hlength ▸ hlt) rfl⟩

theorem exists_of_mapM_eq_error {α β : Type} {g : α → Except Fault β} {xs : List α}
    (h : xs.mapM g = .error f) : ∃ x ∈ xs, g x = .error f := by
  induction xs with
  | nil => cases h
  | cons x xs ih =>
    rw [List.mapM_cons] at h
    rcases bind_eq_error.1 h with h | ⟨_, -, h⟩
    · exact ⟨x, List.mem_cons_self, h⟩
    rcases bind_eq_error.1 h with h | ⟨_, -, h⟩
    · obtain ⟨y, hy, h⟩ := ih h
      exact ⟨y, List.mem_cons_of_mem x hy, h⟩
    · cases h

theorem pseudoPart_eq_error {argument : Option (List Char)}
    (h : pseudoPart inner doubleColon name argument = .error f) :
    ∃ text, (Lexeme.pseudo doubleColon name argument).notArgument? = some text ∧
      inner text = .error f := by
  unfold pseudoPart at h
  dsimp only at h
  split at h
  · cases h
  rename_i hplain
  simp only [Bool.or_eq_true, not_or, Bool.not_eq_true] at hplain
  obtain ⟨rfl, -⟩ := hplain
  cases argument with
  | none => cases h
  | some text =>
    rcases bind_eq_error.1 h with h | ⟨_, -, h⟩
    · unfold withArgument? at h
      split at h
      · cases h
      split at h
      · rename_i hnot
        rcases bind_eq_error.1 h with h | ⟨_, -, h⟩
        · exact ⟨text, if_pos hnot, h⟩
        · cases h
      · split at h <;> cases h
    · cases h

theorem pseudoPart_ne_strayComma {argument : Option (List Char)}
    (h : ∀ text, (Lexeme.pseudo doubleColon name argument).notArgument? = some text →
      inner text ≠ .error .strayComma) :
    pseudoPart inner doubleColon name argument ≠ .error .strayComma := by
  intro herror
  obtain ⟨text, hargument, herror⟩ := pseudoPart_eq_error herror
  exact h text hargument herror

theorem endCompound_ne_strayComma : endCompound parts bareSigil ≠ .error .strayComma := by
  unfold endCompound
  split
  · nofun
  · split <;> nofun

theorem items_ne_strayComma (hcomma : ∀ l ∈ ls, ¬ l.isComma) (hfault : .fault .strayComma ∉ ls)
    (hinner : ∀ l ∈ ls, ∀ text ∈ l.notArgument?, inner text ≠ .error .strayComma) :
    items inner parts bareSigil ls ≠ .error .strayComma := by
  induction ls generalizing parts bareSigil with
  | nil => exact endCompound_ne_strayComma
  | cons l ls ih =>
    obtain ⟨hl, hls⟩ := List.forall_mem_cons.1 hcomma
    obtain ⟨hargument, harguments⟩ := List.forall_mem_cons.1 hinner
    rw [List.mem_cons, not_or] at hfault
    have hrest {parts : Compound} {bareSigil : Bool} :
        items inner parts bareSigil ls ≠ .error .strayComma := ih hls hfault.2 harguments
    intro herror
    cases l with
    | fault f => exact hfault.1 (congrArg Lexeme.fault (Except.error.inj herror).symm)
    | blank =>
      rcases bind_eq_error.1 herror with herror | ⟨_, -, herror⟩
      · exact endCompound_ne_strayComma herror
      rcases bind_eq_error.1 herror with herror | ⟨_, -, herror⟩
      · exact hrest herror
      · cases herror
    | combinator k =>
      rcases bind_eq_error.1 herror with herror | ⟨_, -, herror⟩
      · exact endCompound_ne_strayComma herror
      rcases bind_eq_error.1 herror with herror | ⟨_, -, herror⟩
      · exact hrest herror
      · cases herror
    | comma => exact hl rfl
    | bareSigil => exact hrest herror
    | part part => exact hrest herror
    | pseudo doubleColon name argument =>
      rcases bind_eq_error.1 herror with herror | ⟨_, -, herror⟩
      · exact pseudoPart_ne_strayComma hargument herror
      · exact hrest herror

theorem mem_chainTextsWithin_succ : piece ∈ chainTextsWithin (depth + 1) text ↔
    ∃ outer ∈ chainTexts text, piece = outer ∨ ∃ l ∈ lexemes true outer,
      ∃ argument ∈ l.notArgument?, piece ∈ chainTextsWithin depth argument := by
  simp only [chainTextsWithin, List.mem_flatMap, List.mem_cons, List.mem_filterMap, Option.mem_def]
  refine exists_congr fun outer => and_congr_right fun _ => or_congr_right ?_
  exact ⟨fun ⟨argument, ⟨l, hl, heq⟩, h⟩ => ⟨l, hl, argument, heq, h⟩,
    fun ⟨l, hl, argument, heq, h⟩ => ⟨argument, ⟨l, hl, heq⟩, h⟩⟩

theorem uncut_of_mem_chainTextsWithin (h : piece ∈ chainTextsWithin depth text) : Uncut {} piece := by
  induction depth generalizing text with
  | zero => cases h
  | succ depth ih =>
    obtain ⟨outer, houter, rfl | ⟨_, -, _, -, h⟩⟩ := mem_chainTextsWithin_succ.1 h
    · exact uncut_of_mem_chainTexts houter
    · exact ih h

theorem readWithin_ne_strayComma
    (hcomma : ∀ piece ∈ chainTextsWithin depth text, ∀ l ∈ lexemes true piece, ¬ l.isComma) :
    readWithin depth text ≠ .error .strayComma := by
  induction depth generalizing text with
  | zero => exact nofun
  | succ depth ih =>
    intro herror
    obtain ⟨piece, hpiece, herror⟩ := exists_of_mapM_eq_error herror
    have hself : piece ∈ chainTextsWithin (depth + 1) text :=
      mem_chainTextsWithin_succ.2 ⟨piece, hpiece, .inl rfl⟩
    have hinner : ∀ l ∈ lexemes true piece, ∀ argument ∈ l.notArgument?,
        readWithin depth argument ≠ .error .strayComma := by
      refine fun l hl argument hargument => ih fun below hbelow => hcomma below ?_
      exact mem_chainTextsWithin_succ.2 ⟨piece, hpiece, .inr ⟨l, hl, argument, hargument, hbelow⟩⟩
    rcases bind_eq_error.1 herror with herror | ⟨_, -, herror⟩
    · exact items_ne_strayComma (hcomma piece hself) not_mem_lexemes_strayComma hinner herror
    · cases herror

theorem parse_eq_error_iff {text : String} :
    parse text = .error ⟨f, text⟩ ↔ read text.toList = .error f := by
  rw [parse]
  split
  · rename_i h
    simp [h]
  · rename_i h
    simp [h]

/-- Without commas inside parentheses that belong to no pseudo-class, the splitter and the reader agree
on the commas that separate, unless a comma is hidden from the splitter alone. -/
theorem parse_ne_strayComma (text : String)
    (hloose : ∀ piece ∈ allChainTexts text.toList, ¬ hasLooseComma piece)
    (hhidden : ∀ piece ∈ allChainTexts text.toList, ¬ hasHiddenComma piece) :
    (∀ piece ∈ allChainTexts text.toList, ∀ l ∈ lexemes true piece, ¬ l.isComma) ∧
      parse text ≠ .error ⟨.strayComma, text⟩ := by
  have hcomma : ∀ piece ∈ allChainTexts text.toList, ∀ l ∈ lexemes true piece, ¬ l.isComma := by
    intro piece hpiece l hl hcomma
    have hcause := (exists_isComma_iff (uncut_of_mem_chainTextsWithin hpiece)).1 ⟨l, hl, hcomma⟩
    exact hcause.elim (hloose piece hpiece) (hhidden piece hpiece)
  refine ⟨hcomma, fun herror => ?_⟩
  exact readWithin_ne_strayComma hcomma (parse_eq_error_iff.1 herror)

/-- Commas that are escaped, quoted, in brackets, in arguments and in the argument of a `:not`, with
backslashes in text that is not understood and parentheses that belong to no pseudo-class. -/
theorem parse_ne_strayComma_hidden :
    parse "a\\,b [c='],(']:not(:x(\")\",(y,z)), [q=','] %\\ d), (e (f) g), %\\[h], i" ≠
      .error ⟨.strayComma,
        "a\\,b [c='],(']:not(:x(\")\",(y,z)), [q=','] %\\ d), (e (f) g), %\\[h], i"⟩ :=
  (parse_ne_strayComma _ (by decide +kernel) (by decide +kernel)).2

def fault? {α : Type} : Except Fault α → Option Fault
  | .error f => some f
  | .ok _ => none

theorem eq_error_of_fault? {α : Type} {x : Except Fault α} (h : fault? x = some f) :
    x = .error f := by
  cases x with
  | error g => exact congrArg Except.error (Option.some.inj h)
  | ok a => cases h

/-- A backslash hides the comma from the splitter alone, and so does a bracket. The second text has a
fault that is found before the comma. -/
theorem parse_hidden_from_splitter :
    (parse "a%\\,b" = .error ⟨.strayComma, "a%\\,b"⟩ ∧ '(' ∉ "a%\\,b".toList) ∧
      parse ":x([) .,b])" = .error ⟨.danglingSigil, ":x([) .,b])"⟩ ∧
      allChainTexts ":x([) .,b])".toList = [":x([) .,b])".toList] ∧
      ¬ hasLooseComma ":x([) .,b])".toList ∧
      ∃ l ∈ lexemes true ":x([) .,b])".toList, l.isComma := by
  refine ⟨⟨parse_eq_error_iff.2 (eq_error_of_fault? ?_), ?_⟩,
    parse_eq_error_iff.2 (eq_error_of_fault? ?_), ?_, ?_, ?_⟩ <;> decide +kernel

end DomQuery.Selector
