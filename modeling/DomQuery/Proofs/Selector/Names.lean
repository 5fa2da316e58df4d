import DomQuery.Proofs.Selector.Canonical
import DomQuery.Proofs.Selector.RoundTrip

/-!
What is read from the text of a single part that names an id, a class or an attribute. Two names do not
survive: one that ends in a blank, because the text is trimmed before the backslash in front of the
blank is looked at, and the name of an attribute with a character of an operator, because the search for
the end of the name does not look at backslashes at all.
-/
namespace DomQuery.Selector
open Text

variable {b c : Char} {cs before behind name init : List Char} {part part' : Part}

def textOf (part : Part) : String := Selector.render [.compound [part]]

theorem toList_textOf (part : Part) : (textOf part).toList = part.chars := by
  have hchars : Compound.chars [part] = part.chars := by rw [chars_cons, chars_nil, List.append_nil]
  rw [textOf, Selector.render, String.toList_ofList, chars_singleton, chars_compound, hchars]

theorem chainTexts_textOf (h : Balanced false part.chars) (hne : trim part.chars ≠ []) :
    chainTexts (textOf part).toList = [trim part.chars] := by
  have hsplit : splitOuter {} part.chars = [part.chars] := by
    have hleads := (h.leads (n := {}) ⟨rfl, nofun⟩ nofun) []
    rw [List.append_nil] at hleads
    rw [hleads]
    simp [splitOuter, addToFirst]
  rw [toList_textOf, chainTexts, hsplit]
  simp [hne]

theorem parse_textOf (h : Balanced false part.chars)
    (htakes : Takes true (trim part.chars) (.part part') []) :
    parse (textOf part) = .ok [.compound [part']] := by
  have hne : trim part.chars ≠ [] := by
    obtain ⟨c, cs, hcs, -⟩ := htakes.lexeme_eq
    rw [hcs]
    exact List.cons_ne_nil c cs
  refine parse_of_scans (chainTexts_textOf h hne) (.cons ?_ .nil)
  have hscans : Scans true [] false (trim part.chars ++ []) (chainItems (.compound [part'])) :=
    .part htakes rfl (.done rfl)
  rwa [List.append_nil] at hscans

/-! Ids and classes. -/

def named (sigil : Char) (name : String) : Part :=
  if sigil = '.' then .className name else .id name

/-- The name without the blank at its end, which is trimmed away with the text. -/
def clip (name : String) : String :=
  if name.toList.getLast?.any isBlank then String.ofList name.toList.dropLast else name

theorem clip_of_isName {name : String} (h : IsName name) : clip name = name := by
  have hlast : name.toList.getLast?.any isBlank = false := by
    cases hlast : name.toList.getLast? with
    | none => rfl
    | some b => simpa using h.2 b hlast
  rw [clip, hlast]
  simp

theorem isName_iff_clip {name : String} : IsName name ↔ name ≠ "" ∧ clip name = name := by
  refine ⟨fun h => ⟨h.1, clip_of_isName h⟩, fun ⟨hne, hclip⟩ => ⟨hne, fun b hb hblank => ?_⟩⟩
  have hany : name.toList.getLast?.any isBlank = true := by
    rw [Option.mem_def.1 hb]
    exact hblank
  rw [clip, if_pos hany] at hclip
  have hlength := congrArg (fun s : String => s.toList.length) hclip
  simp only [String.toList_ofList, List.length_dropLast] at hlength
  have hpos := List.length_pos_of_mem (List.mem_of_getLast? hb)
  omega

theorem chars_named {sigil : Char} (hsigil : sigil = '.' ∨ sigil = '#') (name : String) :
    (named sigil name).chars = sigil :: escapeName name.toList := by
  rcases hsigil with rfl | rfl <;> rfl

theorem takes_named {sigil : Char} (hsigil : sigil = '.' ∨ sigil = '#') {fresh : Bool}
    {written : List Char} {name : String} (hspan : nameSpan written = (written, []))
    (hread : unescape written = name.toList) (hne : name ≠ "") :
    Takes fresh (sigil :: written) (.part (named sigil name)) [] := by
  have hspan' : nameSpan (written ++ []) = (written, []) := by rwa [List.append_nil]
  have hne' : unescape written ≠ [] := by simpa [hread] using hne
  have hname : String.ofList (unescape written) = name := by rw [hread, String.ofList_toList]
  rcases hsigil with rfl | rfl
  · exact hname ▸ .className hspan' hne'
  · exact hname ▸ .id hspan' hne'

theorem balanced_named {sigil : Char} (hsigil : sigil = '.' ∨ sigil = '#') (name : String) :
    Balanced false (named sigil name).chars := by
  rw [chars_named hsigil]
  rcases hsigil with rfl | rfl <;>
    exact .plain (.plain (by decide) (by decide) (escaped_escapeName name.toList).isPlain)

theorem trim_named {sigil : Char} (hsigil : sigil = '.' ∨ sigil = '#') {name : String}
    (hne : name ≠ "") :
    trim (named sigil name).chars = sigil :: escapeName (clip name).toList ∧ IsName name ∨
      trim (named sigil name).chars = sigil :: (escapeName (clip name).toList ++ ['\\']) := by
  have hsigil' : ¬ isBlank sigil := by rcases hsigil with rfl | rfl <;> decide
  rw [chars_named hsigil]
  by_cases hname : IsName name
  · have hlast : ∀ c ∈ (escapeName name.toList).getLast?, ¬ isBlank c := by
      rw [getLast?_escapeName]
      exact hname.2
    obtain ⟨-, hhead, hlast⟩ := hasEdges_cons hsigil' hlast
    rw [clip_of_isName hname]
    exact .inl ⟨trim_eq_self hhead hlast, hname⟩
  · right
    obtain ⟨b, hb, hblank⟩ : ∃ b ∈ name.toList.getLast?, isBlank b := by
      by_contra hno
      exact hname ⟨hne, fun b hb hblank => hno ⟨b, hb, hblank⟩⟩
    obtain ⟨init, hinit⟩ := List.getLast?_eq_some_iff.1 hb
    have hescape : escapeChar b = ['\\', b] :=
      if_neg fun hchar => not_isBlank_of_isNameChar hchar hblank
    have hclip : (clip name).toList = init := by
      simp [clip, hinit, hblank]
    have hwritten : escapeName name.toList = escapeName init ++ ['\\', b] := by
      simp [hinit, escapeName, hescape]
    rw [hclip, hwritten]
    have hbackslash : isBlank '\\' = false := by decide
    simp [trim, trimLeft, trimRight, hsigil', hblank, hbackslash]

theorem parse_textOf_named {sigil : Char} (hsigil : sigil = '.' ∨ sigil = '#') {name : String}
    (hne : name ≠ "") (hclip : clip name ≠ "") :
    parse (textOf (named sigil name)) = .ok [.compound [named sigil (clip name)]] := by
  have hescaped := escaped_escapeName (clip name).toList
  apply parse_textOf (balanced_named hsigil name)
  rcases trim_named hsigil hne with ⟨htrim, -⟩ | htrim
  · rw [htrim]
    exact takes_named hsigil hescaped.nameSpan_self (unescape_escapeName _) hclip
  · rw [htrim]
    refine takes_named hsigil (hescaped.nameSpan_append _) ?_ hclip
    rw [hescaped.unescape_append, unescape_escapeName]
    exact List.append_nil _

theorem parse_textOf_named_ne_ok {sigil : Char} (hsigil : sigil = '.' ∨ sigil = '#') {name : String}
    (hne : name ≠ "") (hclip : clip name = "") (selector : Selector) :
    parse (textOf (named sigil name)) ≠ .ok selector := by
  have htrim : trim (named sigil name).chars = [sigil, '\\'] := by
    rcases trim_named hsigil hne with ⟨-, hname⟩ | htrim
    · exact absurd (clip_of_isName hname ▸ hclip) hne
    · rw [htrim, hclip]
      rfl
  intro hparse
  have hread := read_eq_ok_iff.1 (parse_eq_ok_iff.1 hparse)
  rw [chainTexts_textOf (balanced_named hsigil name) (by simp [htrim]), htrim] at hread
  cases hread with
  | cons hchain _ =>
    obtain ⟨its, hscans, -⟩ := readChain_eq_ok_iff.1 hchain
    have hsigil : Takes true [sigil, '\\'] .bareSigil [] := .bareSigil hsigil rfl rfl
    have hitems := items_of_scans hscans
    have hlexemes := hsigil.lexemes_append
    rw [List.append_nil] at hlexemes
    rw [hlexemes, lexemes] at hitems
    cases hitems

/-! Names of attributes. -/

/-- An attribute name that is read as the name and the value of a test for equality. -/
def ReadsAsTest (name key value : String) : Prop :=
  name.toList = key.toList ++ '=' :: value.toList ∧ key ≠ "" ∧ value ≠ "" ∧
    (∀ c ∈ key.toList, endsAttributeName c = false) ∧ ∀ c ∈ value.toList, isQuote c = false

def present (name : String) : Part := .attribute ⟨name, .present, ""⟩

theorem parse_textOf_test (test : AttributeTest) :
    parse (textOf (.attribute test)) = .ok [.compound [attributePart (testBody test)]] := by
  have hchars : Part.chars (.attribute test) = '[' :: testBody test ++ [']'] := rfl
  have htrim : trim (Part.chars (.attribute test)) = Part.chars (.attribute test) := by
    refine trim_eq_self ?_ ?_
    · intro c hc
      obtain rfl := Option.some.inj hc
      decide
    · intro c hc
      rw [hchars, List.getLast?_concat] at hc
      obtain rfl := Option.some.inj hc
      decide
  refine parse_textOf (balanced_test test) ?_
  rw [htrim, hchars]
  exact .bracket ((crosses_testBody test).enclosed_bracket [])

theorem not_isNameChar_of_endsAttributeName (h : endsAttributeName c) : ¬ isNameChar c := by
  intro hname
  have hblank := not_isBlank_of_isNameChar hname
  have hcases : isBlank c ∨ c ∈ ['=', '~', '|', '^', '$', '*', '!'] := by
    simpa [endsAttributeName, or_assoc] using h
  rcases hcases with hc | hc
  · exact hblank hc
  · have hoperator : ∀ x ∈ ['=', '~', '|', '^', '$', '*', '!'], ¬ isNameChar x :=
      forall_of_all (by decide)
    exact hoperator c hc hname

theorem mem_escapeName (hc : c ∈ escapeName name) : c = '\\' ∨ c ∈ name := by
  obtain ⟨d, hd, hc⟩ := List.mem_flatMap.1 hc
  unfold escapeChar at hc
  split at hc
  · exact .inr (List.mem_singleton.1 hc ▸ hd)
  · simp only [List.mem_cons, List.not_mem_nil, or_false] at hc
    rcases hc with heq | rfl
    · exact .inl heq
    · exact .inr hd

theorem mem_escapeName_of_mem (hc : c ∈ name) : c ∈ escapeName name := by
  refine List.mem_flatMap.2 ⟨c, hc, ?_⟩
  unfold escapeChar
  split <;> simp

theorem trim_escapeName (h : ∀ c ∈ name, ¬ isBlank c) : trim (escapeName name) = escapeName name := by
  refine trim_eq_self (fun c hc => ?_) fun c hc => ?_
  · exact not_isBlank_of_continuesName ((escaped_escapeName _).continuesName c hc)
  · rw [getLast?_escapeName] at hc
    exact h c (List.mem_of_getLast? hc)

theorem attributeValue?_escapeName (h : ∀ c ∈ name, ¬ isBlank c) :
    attributeValue? (trim (escapeName name)) =
      if name ≠ [] ∧ name.any isQuote = false then some name else none := by
  have hunquote : unquote? (escapeName name) = none := by
    cases hcs : escapeName name with
    | nil => rfl
    | cons c cs =>
      have hc := (escaped_escapeName name).continuesName c (by rw [hcs]; rfl)
      have hquote : (c == '"' || c == '\'') = false := by
        by_contra hquote
        simp only [Bool.not_eq_false, Bool.or_eq_true, beq_iff_eq] at hquote
        rcases hquote with rfl | rfl <;> exact absurd hc (by decide)
      simp [unquote?, hquote]
  have hnil : escapeName name = [] ↔ name = [] := by
    rw [← List.getLast?_eq_none_iff, getLast?_escapeName, List.getLast?_eq_none_iff]
  have hblank : (escapeName name).any isBlank = false := by
    rw [List.any_eq_false]
    intro c hc
    rcases mem_escapeName hc with rfl | hc
    · decide
    · exact h c hc
  have hquote : (escapeName name).any isQuote = name.any isQuote := by
    rw [Bool.eq_iff_iff, List.any_eq_true, List.any_eq_true]
    constructor
    · rintro ⟨c, hc, hquote⟩
      rcases mem_escapeName hc with rfl | hc
      · exact absurd hquote (by decide)
      · exact ⟨c, hc, hquote⟩
    · rintro ⟨c, hc, hquote⟩
      exact ⟨c, mem_escapeName_of_mem hc, hquote⟩
  rw [trim_escapeName h, attributeValue?, hunquote]
  simp only [List.isEmpty_iff, hnil, hblank, hquote, unescape_escapeName, Bool.or_false,
    Bool.or_eq_true]
  cases hany : name.any isQuote <;> by_cases hempty : name = [] <;> simp [hempty]

theorem comparison?_escapeName (c : Char) (name : List Char) :
    comparison? (c :: escapeName name) = if c = '=' then some (.equals, escapeName name) else none := by
  have hhead : ∀ cs, escapeName name ≠ '=' :: cs := by
    intro cs hcs
    have hcontinues := (escaped_escapeName name).continuesName '=' (by rw [hcs]; rfl)
    exact absurd hcontinues (by decide)
  unfold comparison?
  split <;> simp_all

/-- The first character of an operator ends the name, backslash or not. -/
theorem attributeTest?_escapeName (hbefore : ∀ x ∈ before, endsAttributeName x = false)
    (hc : endsAttributeName c) (hblank : ∀ x ∈ before ++ c :: behind, ¬ isBlank x) :
    attributeTest? (escapeName (before ++ c :: behind)) =
      if before ≠ [] ∧ c = '=' ∧ behind ≠ [] ∧ behind.any isQuote = false then
        some ⟨String.ofList before, .equals, String.ofList behind⟩ else none := by
  obtain ⟨-, hblank'⟩ := List.forall_mem_append.1 hblank
  obtain ⟨hcblank, hbehind⟩ := List.forall_mem_cons.1 hblank'
  have hwritten : escapeName (before ++ c :: behind) =
      (escapeName before ++ ['\\']) ++ c :: escapeName behind := by
    simp [escapeName, escapeChar, not_isNameChar_of_endsAttributeName hc]
  have hpos : ∀ x ∈ escapeName before ++ ['\\'], (!endsAttributeName x) = true := by
    rw [List.forall_mem_append]
    exact ⟨endsAttributeName_eq_false_of_mem_escapeName hbefore, forall_of_all (by decide)⟩
  have hname : unescape (escapeName before ++ ['\\']) = before := by
    rw [(escaped_escapeName before).unescape_append, unescape_escapeName]
    exact List.append_nil _
  have htake : (c :: escapeName behind).takeWhile (!endsAttributeName ·) = [] := by simp [hc]
  have hdrop : trimLeft ((c :: escapeName behind).dropWhile (!endsAttributeName ·)) =
      c :: escapeName behind := by simp [hc, trimLeft, hcblank]
  rw [attributeTest?, trim_escapeName hblank, hwritten, List.takeWhile_append_of_pos hpos,
    List.dropWhile_append_of_pos hpos, htake, hdrop, List.append_nil, hname]
  simp only [comparison?_escapeName]
  by_cases hequals : c = '='
  · by_cases hnil : before = []
    · simp [hnil]
    · have hcond : (before ≠ [] ∧ c = '=' ∧ behind ≠ [] ∧ behind.any isQuote = false) ↔
          behind ≠ [] ∧ behind.any isQuote = false := by simp [hnil, hequals]
      simp only [if_pos hequals, Option.bind_eq_bind, Option.bind_some,
        attributeValue?_escapeName hbehind, hcond]
      by_cases hok : behind ≠ [] ∧ behind.any isQuote = false
      · simp only [if_pos hok]
        simp [hnil]
      · simp only [if_neg hok]
        simp [hnil]
  · simp [hequals]

theorem exists_first_operator (h : ¬ ∀ c ∈ cs, endsAttributeName c = false) :
    ∃ before c behind, cs = before ++ c :: behind ∧ endsAttributeName c ∧
      ∀ x ∈ before, endsAttributeName x = false := by
  simp only [not_forall, Bool.not_eq_false] at h
  obtain ⟨c, hc, hends⟩ := h
  obtain ⟨d, hd⟩ := Option.isSome_iff_exists.1 (List.find?_isSome.2 ⟨c, hc, hends⟩)
  obtain ⟨hends, before, behind, hcs, hbefore⟩ := List.find?_eq_some_iff_append.1 hd
  exact ⟨before, d, behind, hcs, hends, by simpa using hbefore⟩

theorem ReadsAsTest.eq_of_append {name key value : String} (h : ReadsAsTest name key value)
    (hname : name.toList = before ++ c :: behind) (hc : endsAttributeName c)
    (hbefore : ∀ x ∈ before, endsAttributeName x = false) :
    before = key.toList ∧ c = '=' ∧ behind = value.toList := by
  obtain ⟨happend, -, -, hkey, -⟩ := h
  have hequals : endsAttributeName '=' = true := by decide
  have htake {xs : List Char} {x : Char} (hxs : ∀ x ∈ xs, endsAttributeName x = false)
      (hx : endsAttributeName x) (ys : List Char) : (xs ++ x :: ys).takeWhile (!endsAttributeName ·) = xs := by
    rw [List.takeWhile_append_of_pos (by simpa using hxs)]
    simp [hx]
  have heq : before ++ c :: behind = key.toList ++ '=' :: value.toList := hname ▸ happend
  have hkey' : before = key.toList := by
    rw [← htake hbefore hc behind, heq, htake hkey hequals]
  rw [hkey', List.append_cancel_left_eq, List.cons.injEq] at heq
  exact ⟨hkey', heq⟩

theorem attributeTest?_of_operator {name : String} (hblank : ∀ c ∈ name.toList, ¬ isBlank c)
    (hends : ¬ ∀ c ∈ name.toList, endsAttributeName c = false) (test : AttributeTest) :
    attributeTest? (testBody ⟨name, .present, ""⟩) = some test ↔
      ∃ key value, ReadsAsTest name key value ∧ test = ⟨key, .equals, value⟩ := by
  obtain ⟨before, c, behind, hname, hc, hbefore⟩ := exists_first_operator hends
  have hbody : testBody ⟨name, .present, ""⟩ = escapeName (before ++ c :: behind) := by
    rw [testBody, hname]
    exact List.append_nil _
  rw [hbody, attributeTest?_escapeName hbefore hc (hname ▸ hblank)]
  constructor
  · intro h
    obtain ⟨⟨hne, rfl, hvalue⟩, htest⟩ := Option.ite_none_right_eq_some.1 h
    refine ⟨String.ofList before, String.ofList behind, ?_, (Option.some.inj htest).symm⟩
    exact ⟨by simp [hname], by simpa using hne, by simpa using hvalue.1, by simpa using hbefore,
      by simpa using hvalue.2⟩
  · rintro ⟨key, value, hreads, rfl⟩
    obtain ⟨rfl, rfl, rfl⟩ := hreads.eq_of_append hname hc hbefore
    obtain ⟨-, hkey, hvalue, -, hquote⟩ := hreads
    rw [if_pos ⟨by simpa using hkey, rfl, by simpa using hvalue, by simpa using hquote⟩]
    simp

end DomQuery.Selector
