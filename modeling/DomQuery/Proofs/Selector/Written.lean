import DomQuery.Proofs.Selector.Balanced
import DomQuery.Proofs.Selector.Formula
import DomQuery.Proofs.Selector.Grammar

/-!
The texts that the printer puts between brackets and behind the names of pseudo-classes are read as
what they were written for.
-/
namespace DomQuery.Selector
open Text

variable {inner : List Char → Except Fault Selector} {c : Char} {cs name argument : List Char}
  {word : String} {part : Part} {test : AttributeTest}

/-! Texts that trimming leaves alone. -/

theorem trim_eq_self (hhead : ∀ c ∈ cs.head?, ¬ isBlank c) (hlast : ∀ c ∈ cs.getLast?, ¬ isBlank c) :
    trim cs = cs := by
  have hdrop {ds : List Char} (h : ∀ c ∈ ds.head?, ¬ isBlank c) : ds.dropWhile isBlank = ds := by
    cases ds with
    | nil => rfl
    | cons d ds => rw [List.dropWhile_cons_of_neg (h d rfl)]
  rw [trim, trimLeft, hdrop hhead, trimRight, hdrop, List.reverse_reverse]
  rwa [List.head?_reverse]

theorem forall_head?_append {P : Char → Prop} {ds : List Char} (h : ∀ c ∈ cs.head?, P c)
    (h' : ∀ c ∈ ds.head?, P c) : ∀ c ∈ (cs ++ ds).head?, P c := by
  cases cs with
  | nil => exact h'
  | cons c cs => exact h

theorem forall_getLast?_append {P : Char → Prop} {ds : List Char} (h : ∀ c ∈ cs.getLast?, P c)
    (h' : ∀ c ∈ ds.getLast?, P c) : ∀ c ∈ (cs ++ ds).getLast?, P c := by
  rcases List.eq_nil_or_concat ds with rfl | ⟨init, d, rfl⟩
  · rwa [List.append_nil]
  · rw [List.concat_eq_append] at h' ⊢
    rw [List.getLast?_concat] at h'
    rwa [← List.append_assoc, List.getLast?_concat]

theorem trim_quote (text : List Char) : trim (quote text) = quote text := by
  refine trim_eq_self ?_ ?_
  · intro c hc
    obtain rfl : '"' = c := by simpa [quote] using hc
    decide
  · intro c hc
    rw [quote, List.getLast?_concat] at hc
    obtain rfl := Option.some.inj hc
    decide

/-! Attribute tests. -/

theorem endsAttributeName_eq_false_of_mem_escapeName
    (h : ∀ c ∈ name, endsAttributeName c = false) :
    ∀ c ∈ escapeName name, (!endsAttributeName c) = true := by
  intro c hc
  obtain ⟨d, hd, hc⟩ := List.mem_flatMap.1 hc
  have hcases : c = '\\' ∨ c = d := by
    unfold escapeChar at hc
    split at hc
    · exact .inr (List.mem_singleton.1 hc)
    · simpa using hc
  cases hcases with
  | inl heq =>
    subst heq
    decide
  | inr heq =>
    subst heq
    simp [h c hd]

theorem getLast?_escapeChar (c : Char) : (escapeChar c).getLast? = some c := by
  unfold escapeChar
  split <;> rfl

theorem getLast?_escapeName (name : List Char) : (escapeName name).getLast? = name.getLast? := by
  rcases List.eq_nil_or_concat name with rfl | ⟨init, c, rfl⟩
  · rfl
  · have hlast : escapeName [c] = escapeChar c := List.append_nil _
    rw [escapeName, List.concat_eq_append, List.flatMap_append, List.getLast?_append]
    change (escapeName [c]).getLast?.or _ = _
    rw [hlast, getLast?_escapeChar]
    simp

def testChars (comparison : Comparison) (value : List Char) : List Char :=
  match comparison with
  | .present => []
  | comparison => comparison.token ++ quote value

def testBody (test : AttributeTest) : List Char :=
  escapeName test.name.toList ++ testChars test.comparison test.value.toList

theorem chars_attributeTest (test : AttributeTest) :
    test.chars = '[' :: testBody test ++ [']'] := rfl

theorem head?_testChars (comparison : Comparison) (value : List Char) :
    ∀ c ∈ (testChars comparison value).head?, endsAttributeName c ∧ ¬ isBlank c := by
  intro c hc
  cases comparison
  case present => exact absurd hc nofun
  all_goals
    obtain rfl := Option.some.inj hc
    decide

theorem getLast?_testChars (comparison : Comparison) (value : List Char) :
    ∀ c ∈ (testChars comparison value).getLast?, ¬ isBlank c := by
  have hquote (token : List Char) : (token ++ quote value).getLast? = some '"' := by
    rw [quote, ← List.append_assoc, List.getLast?_concat]
  intro c hc
  cases comparison
  case present => cases hc
  all_goals
    rw [testChars, hquote] at hc
    · obtain rfl := Option.some.inj hc
      decide
    · intro hpresent
      cases hpresent

theorem attributeTest?_testBody (hname : test.name ≠ "")
    (hends : ∀ c ∈ test.name.toList, endsAttributeName c = false)
    (hpresent : test.comparison = .present → test.value = "") :
    attributeTest? (testBody test) = some test := by
  obtain ⟨name, comparison, value⟩ := test
  simp only [testBody] at hname hends hpresent ⊢
  have hpos := endsAttributeName_eq_false_of_mem_escapeName hends
  have hhead := head?_testChars comparison value.toList
  have htrim : trim (escapeName name.toList ++ testChars comparison value.toList) =
      escapeName name.toList ++ testChars comparison value.toList := by
    refine trim_eq_self (forall_head?_append ?_ fun c hc => (hhead c hc).2)
      (forall_getLast?_append ?_ (getLast?_testChars comparison value.toList))
    · exact fun c hc => not_isBlank_of_continuesName ((escaped_escapeName _).continuesName c hc)
    · intro c hc hblank
      rw [getLast?_escapeName] at hc
      have hmem := hends c (List.mem_of_getLast? hc)
      simp [endsAttributeName, hblank] at hmem
  have htake : (testChars comparison value.toList).takeWhile (!endsAttributeName ·) = [] := by
    cases h : testChars comparison value.toList with
    | nil => rfl
    | cons c cs => simp [(hhead c (by rw [h]; rfl)).1]
  have hdrop : trimLeft ((testChars comparison value.toList).dropWhile (!endsAttributeName ·)) =
      testChars comparison value.toList := by
    cases h : testChars comparison value.toList with
    | nil => rfl
    | cons c cs =>
      obtain ⟨hends, hblank⟩ := hhead c (by rw [h]; rfl)
      simp [trimLeft, hends, hblank]
  rw [attributeTest?, htrim, List.takeWhile_append_of_pos hpos, List.dropWhile_append_of_pos hpos,
    htake, hdrop, List.append_nil, unescape_escapeName]
  have hvalue : attributeValue? (trim (quote value.toList)) = some value.toList := by
    rw [trim_quote, attributeValue?, unquote?_quote]
  cases comparison
  case present => simp [testChars, hname, hpresent]
  all_goals simp [testChars, Comparison.token, comparison?, hname, hvalue]

theorem testChars_cases (comparison : Comparison) (value : List Char) :
    testChars comparison value = [] ∨
      testChars comparison value = comparison.token ++ quote value := by
  cases comparison
  case present => exact .inl rfl
  all_goals exact .inr rfl

theorem escaped_token (comparison : Comparison) : Escaped IsPlain comparison.token := by
  refine escaped_of_forall (forall_of_all ?_)
  cases comparison <;> decide

theorem crosses_testBody (test : AttributeTest) : Crosses none ']' (testBody test) := by
  refine (escaped_escapeName _).isPlain.crosses_brackets.append ?_
  cases testChars_cases test.comparison test.value.toList with
  | inl h =>
    rw [h]
    exact Escaped.nil.crosses
  | inr h =>
    rw [h]
    exact (escaped_token _).crosses_brackets.append (crosses_quote _)

theorem balanced_test {nested : Bool} (test : AttributeTest) : Balanced nested test.chars := by
  have hname := (escaped_escapeName test.name.toList).isPlain
  rw [chars_attributeTest, testBody]
  cases testChars_cases test.comparison test.value.toList with
  | inl h =>
    rw [h, List.append_nil]
    exact .bare hname
  | inr h =>
    rw [h, ← List.append_assoc]
    exact .bracketed (hname.append (escaped_token _)) _

/-! The names of pseudo-classes. -/

def IsWord (word : String) : Prop := word ≠ "" ∧ ∀ c ∈ word.toList, isNameChar c ∧ c.toLower = c

instance (word : String) : Decidable (IsWord word) :=
  @instDecidableAnd _ _ _ (List.decidableBAll _ _)

theorem IsWord.escaped (h : IsWord word) : Escaped (isNameChar ·) word.toList :=
  escaped_of_forall fun c hc => ⟨(h.2 c hc).1, ne_backslash_of_isNameChar (h.2 c hc).1⟩

theorem IsWord.map_toLower_unescape (h : IsWord word) :
    (unescape word.toList).map Char.toLower = word.toList := by
  have hword := h.2
  generalize word.toList = cs at hword
  induction cs with
  | nil => rfl
  | cons c cs ih =>
    obtain ⟨hname, hlower⟩ := hword c List.mem_cons_self
    rw [unescape_cons (ne_backslash_of_isNameChar hname), List.map_cons, hlower,
      ih fun d hd => hword d (List.mem_cons_of_mem c hd)]

theorem IsWord.pseudoPart_eq (h : IsWord word) (hkeyword : keyword? word = some part) :
    pseudoPart inner false word.toList none = .ok part := by
  have hne : word.toList.isEmpty = false := by simpa using h.1
  rw [pseudoPart, h.map_toLower_unescape, hne, String.ofList_toList]
  simp only [Bool.or_false, Bool.false_eq_true, if_false, hkeyword]
  rfl

theorem IsWord.pseudoPart_call_eq (h : IsWord word)
    (hargument : withArgument? inner word argument = .ok (some part)) :
    pseudoPart inner false word.toList (some argument) = .ok part := by
  have hne : word.toList.isEmpty = false := by simpa using h.1
  rw [pseudoPart, h.map_toLower_unescape, hne, String.ofList_toList]
  simp only [Bool.or_false, Bool.false_eq_true, if_false, hargument]
  rfl

def IsKeyword : Part → Prop
  | .position (.nth _ _) => False
  | .position (.nthLast _ _) => False
  | .position _ => True
  | .empty => True
  | .root => True
  | _ => False

theorem IsKeyword.exists_word (h : IsKeyword part) :
    ∃ word, IsWord word ∧ part.chars = pseudoText false word.toList none ∧
      keyword? word = some part := by
  match part, h with
  | .position (.first .child), _ => exact ⟨"first-child", by decide, rfl, rfl⟩
  | .position (.first .ofType), _ => exact ⟨"first-of-type", by decide, rfl, rfl⟩
  | .position (.last .child), _ => exact ⟨"last-child", by decide, rfl, rfl⟩
  | .position (.last .ofType), _ => exact ⟨"last-of-type", by decide, rfl, rfl⟩
  | .position (.only .child), _ => exact ⟨"only-child", by decide, rfl, rfl⟩
  | .position (.only .ofType), _ => exact ⟨"only-of-type", by decide, rfl, rfl⟩
  | .empty, _ => exact ⟨"empty", by decide, rfl, rfl⟩
  | .root, _ => exact ⟨"root", by decide, rfl, rfl⟩

def kinWord : Kin → String
  | .child => "child"
  | .ofType => "of-type"

def call? : Part → Option (String × List Char)
  | .position (.nth kin formula) => some ("nth-" ++ kinWord kin, formula.render.toList)
  | .position (.nthLast kin formula) => some ("nth-last-" ++ kinWord kin, formula.render.toList)
  | .contains text => some ("contains", quote text.toList)
  | .not alternatives => some ("not", Selector.chars alternatives)
  | _ => none

@[elab_as_elim]
theorem form_cases {motive : Part → Prop} (universal : motive .universal)
    (tag : ∀ name, motive (.tag name)) (id : ∀ name, motive (.id name))
    (className : ∀ name, motive (.className name)) (test : ∀ test, motive (.attribute test))
    (keyword : ∀ part, IsKeyword part → motive part)
    (call : ∀ part word argument, call? part = some (word, argument) → motive part)
    (unmatchable : ∀ text, motive (.unmatchable text)) : ∀ part, motive part
  | .universal => universal
  | .tag name => tag name
  | .id name => id name
  | .className name => className name
  | .attribute test' => test test'
  | .position (.nth _ _) => call _ _ _ rfl
  | .position (.nthLast _ _) => call _ _ _ rfl
  | .position (.first _) => keyword _ trivial
  | .position (.last _) => keyword _ trivial
  | .position (.only _) => keyword _ trivial
  | .empty => keyword _ trivial
  | .root => keyword _ trivial
  | .contains _ => call _ _ _ rfl
  | .not _ => call _ _ _ rfl
  | .unmatchable text => unmatchable text

theorem isWord_of_call? (h : call? part = some (word, argument)) : IsWord word := by
  match part, h with
  | .position (.nth kin _), rfl => cases kin <;> decide +kernel
  | .position (.nthLast kin _), rfl => cases kin <;> decide +kernel
  | .contains _, rfl => decide
  | .not _, rfl => decide

theorem chars_nth (kin : Kin) (formula : Formula) : Part.chars (.position (.nth kin formula)) =
    pseudoText false ("nth-".toList ++ kin.chars) (some formula.render.toList) := by
  cases kin <;> rfl

theorem chars_nthLast (kin : Kin) (formula : Formula) :
    Part.chars (.position (.nthLast kin formula)) =
      pseudoText false ("nth-last-".toList ++ kin.chars) (some formula.render.toList) := by
  cases kin <;> rfl

theorem toList_kinWord (kin : Kin) : (kinWord kin).toList = kin.chars := by
  cases kin <;> rfl

theorem chars_contains (text : String) :
    Part.chars (.contains text) = pseudoText false "contains".toList (some (quote text.toList)) := rfl

theorem chars_not (alternatives : List Chain) : Part.chars (.not alternatives) =
    pseudoText false "not".toList (some (Selector.chars alternatives)) := rfl

theorem chars_of_call? (h : call? part = some (word, argument)) :
    part.chars = pseudoText false word.toList (some argument) := by
  match part, h with
  | .position (.nth kin formula), rfl => rw [chars_nth, String.toList_append, toList_kinWord]
  | .position (.nthLast kin formula), rfl =>
    rw [chars_nthLast, String.toList_append, toList_kinWord]
  | .contains text, rfl => exact chars_contains text
  | .not alternatives, rfl => exact chars_not alternatives

/-- The argument of `:not` is taken for what it was written for if it can be read at all. -/
theorem withArgument?_eq (h : call? part = some (word, argument))
    (hnot : ∀ alternatives, part = .not alternatives → alternatives ≠ [] ∧
      inner (Selector.chars alternatives) = .ok alternatives) :
    withArgument? inner word argument = .ok (some part) := by
  match part, h with
  | .position (.nth kin f), rfl =>
    cases kin <;> simp [withArgument?, kinWord, formulaKeyword?, Formula.ofChars?_render f]
  | .position (.nthLast kin f), rfl =>
    cases kin <;> simp [withArgument?, kinWord, formulaKeyword?, Formula.ofChars?_render f]
  | .contains text, rfl => simp [withArgument?, trim_quote, unquote?_quote]
  | .not alternatives, rfl =>
    obtain ⟨hne, hread⟩ := hnot alternatives rfl
    have hempty : alternatives.isEmpty = false := by simpa using hne
    rw [withArgument?, if_neg (by decide), if_pos (by decide), hread]
    exact bind_eq_ok.2 ⟨alternatives, rfl, by rw [hempty]; rfl⟩

theorem balanced_of_call? (h : call? part = some (word, argument))
    (hnot : ∀ alternatives, part ≠ .not alternatives) : Balanced true argument := by
  have hformula (formula : Formula) : Balanced true formula.render.toList := by
    refine .plain (escaped_of_forall fun c hc => ?_)
    rcases Formula.isWritten_of_mem_render hc with h | rfl | rfl | rfl
    · have hname := isNameChar_of_isDigit h
      exact ⟨isPlain_of_isNameChar hname, ne_backslash_of_isNameChar hname⟩
    all_goals decide
  match part, h with
  | .position (.nth _ formula), rfl => exact hformula formula
  | .position (.nthLast _ formula), rfl => exact hformula formula
  | .contains text, rfl => exact .quoted _
  | .not alternatives, rfl => exact absurd rfl (hnot alternatives)

end DomQuery.Selector
