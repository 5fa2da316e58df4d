import DomQuery.Proofs.Selector.Image

/-!
Commas and closing parentheses are counted. The printer writes one of them only where the text that
was read had one, so a tree never prints more of them than its text held.
-/
namespace DomQuery.Selector
open Text

variable {x : Char} {fresh bareSigil : Bool} {cs text more body raw value : List Char}
  {word : String} {part : Part} {parts : Compound} {its : List Item} {chain : Chain} {bound : Nat}

def IsMark (x : Char) : Prop := x = ',' ∨ x = ')'

theorem IsMark.not_isNameChar (hx : IsMark x) : ¬ isNameChar x := by
  cases hx with
  | inl h => subst h; decide
  | inr h => subst h; decide

theorem IsMark.ne (hx : IsMark x) : x ≠ '\\' ∧ x ≠ '"' ∧ x ≠ ' ' ∧ x ≠ '(' := by
  cases hx with
  | inl h => subst h; decide
  | inr h => subst h; decide

theorem IsMark.count_eq_zero (hx : IsMark x) (h : ∀ c ∈ cs, c ≠ ',' ∧ c ≠ ')') :
    cs.count x = 0 := by
  apply List.count_eq_zero_of_not_mem
  intro hmem
  obtain ⟨hcomma, hparenthesis⟩ := h x hmem
  cases hx with
  | inl hx => exact hcomma hx
  | inr hx => exact hparenthesis hx

/-! Escapes add backslashes and quotes only. -/

theorem count_cons_add (c : Char) (cs : List Char) :
    (c :: cs).count x = [c].count x + cs.count x := by
  rw [← List.count_append, List.singleton_append]

theorem count_escapeChar (hx : x ≠ '\\') (c : Char) : (escapeChar c).count x = [c].count x := by
  unfold escapeChar
  split
  · rfl
  · rw [List.count_cons_of_ne (Ne.symm hx)]

theorem count_escapeName (hx : x ≠ '\\') (name : List Char) :
    (escapeName name).count x = name.count x := by
  induction name with
  | nil => rfl
  | cons c name ih =>
    have happend : (escapeName (c :: name)).count x = (escapeChar c ++ escapeName name).count x :=
      rfl
    rw [happend, List.count_append, count_escapeChar hx, ih, ← count_cons_add]

theorem count_escapeTag (hx : x ≠ '\\') (name : List Char) :
    (escapeTag name).count x = name.count x := by
  cases name with
  | nil => rfl
  | cons c name =>
    rw [escapeTag, List.count_append, count_escapeName hx, count_cons_add]
    split
    · rw [List.count_cons_of_ne (Ne.symm hx)]
    · rw [count_escapeChar hx]

theorem count_quote (hx : x ≠ '\\') (hx' : x ≠ '"') (text : List Char) :
    (quote text).count x = text.count x := by
  have hinside : (escapeQuoted text).count x = text.count x := by
    induction text with
    | nil => rfl
    | cons c text ih =>
      rw [escapeQuoted, List.count_append, ih, count_cons_add]
      split
      · rw [List.count_cons_of_ne (Ne.symm hx)]
      · rfl
  simp [quote, hinside, Ne.symm hx']

/-! The reader takes names and values out of the text, in the order in which they stand there. -/

theorem trim_sublist (cs : List Char) : (trim cs).Sublist cs :=
  (isPrefix_trimRight (trimLeft cs)).sublist.trans (List.dropWhile_sublist isBlank)

theorem unquote?_sublist (h : unquote? raw = some value) : value.Sublist raw := by
  unfold unquote? at h
  split at h
  · cases h
  rename_i q rest
  split at h
  · split at h
    · cases h
    rename_i last inner hreverse
    split at h
    · obtain rfl := Option.some.inj h
      have hrest : rest = inner.reverse ++ [last] := by
        rw [← List.reverse_cons, ← hreverse, List.reverse_reverse]
      rw [hrest]
      exact ((unescape_sublist _).trans (List.sublist_append_left _ _)).cons q
    · cases h
  · cases h

theorem attributeValue?_sublist (h : attributeValue? raw = some value) : value.Sublist raw := by
  unfold attributeValue? at h
  split at h
  · rename_i hquoted
    obtain rfl := Option.some.inj h
    exact unquote?_sublist hquoted
  · split at h
    · exact absurd h nofun
    · obtain rfl := Option.some.inj h
      exact unescape_sublist raw

theorem comparison?_sublist {comparison : Comparison} (h : comparison? cs = some (comparison, raw)) :
    raw.Sublist cs := by
  unfold comparison? at h
  split at h
  all_goals cases h
  · exact List.sublist_cons_self _ _
  all_goals exact (List.sublist_cons_self _ _).cons _

theorem attributeTest?_sublist {test : AttributeTest} (h : attributeTest? body = some test) :
    (test.name.toList ++ test.value.toList).Sublist body := by
  unfold attributeTest? at h
  dsimp only at h
  have hname := unescape_sublist ((trim body).takeWhile (!endsAttributeName ·))
  have hbody : ((trim body).takeWhile (!endsAttributeName ·) ++
      (trim body).dropWhile (!endsAttributeName ·)).Sublist body := by
    rw [List.takeWhile_append_dropWhile]
    exact trim_sublist body
  split at h
  · exact absurd h nofun
  split at h
  · obtain rfl := Option.some.inj h
    have hnil : (String.toList "").Sublist ((trim body).dropWhile (!endsAttributeName ·)) :=
      List.nil_sublist _
    simpa using (hname.append hnil).trans hbody
  · obtain ⟨⟨comparison, raw⟩, hcomparison, h⟩ := Option.bind_eq_some_iff.1 h
    obtain ⟨value, hvalue, h⟩ := Option.bind_eq_some_iff.1 h
    obtain rfl := Option.some.inj h
    have hraw : raw.Sublist ((trim body).dropWhile (!endsAttributeName ·)) :=
      (comparison?_sublist hcomparison).trans (List.dropWhile_sublist isBlank)
    have hvalue := ((attributeValue?_sublist hvalue).trans (trim_sublist raw)).trans hraw
    simpa using (hname.append hvalue).trans hbody

/-! The text of a part. -/

theorem count_pseudoText_none (hx : IsMark x) (doubleColon : Bool) (name : List Char) :
    (pseudoText doubleColon name none).count x = name.count x := by
  have hcolon : x ≠ ':' := by
    cases hx with
    | inl h => subst h; decide
    | inr h => subst h; decide
  cases doubleColon with
  | true => simp [pseudoText, Ne.symm hcolon]
  | false => simp [pseudoText, Ne.symm hcolon]

theorem count_pseudoText_some (hx : IsMark x) (doubleColon : Bool) (name argument : List Char) :
    (pseudoText doubleColon name (some argument)).count x =
      name.count x + argument.count x + [')'].count x := by
  have happend : pseudoText doubleColon name (some argument) =
      pseudoText doubleColon name none ++ '(' :: argument ++ [')'] := by
    simp [pseudoText]
  obtain ⟨-, -, -, hopening⟩ := hx.ne
  rw [happend, List.count_append, List.count_append, count_pseudoText_none hx,
    List.count_cons_of_ne (Ne.symm hopening)]

theorem IsWord.count_eq_zero (h : IsWord word) (hx : IsMark x) : word.toList.count x = 0 :=
  List.count_eq_zero_of_not_mem fun hmem => hx.not_isNameChar (h.2 x hmem).1

theorem count_render (hx : IsMark x) (formula : Formula) : formula.render.toList.count x = 0 := by
  apply hx.count_eq_zero
  intro c hc
  rcases Formula.isWritten_of_mem_render hc with h | rfl | rfl | rfl
  · constructor
    · rintro rfl
      exact absurd h (by decide)
    · rintro rfl
      exact absurd h (by decide)
  all_goals decide

theorem count_argument_le {argument printed : List Char} (hx : IsMark x)
    (h : Called word argument part) (hcall : call? part = some (word, printed))
    (hread : ∀ alternatives, read argument = .ok alternatives →
      (Selector.chars alternatives).count x ≤ argument.count x) :
    printed.count x ≤ argument.count x := by
  obtain ⟨hbackslash, hquote, -⟩ := hx.ne
  cases h with
  | contains =>
    obtain ⟨-, rfl⟩ := Prod.mk.inj (Option.some.inj hcall)
    rw [count_quote hbackslash hquote, String.toList_ofList]
    refine List.Sublist.count_le x (List.Sublist.trans ?_ (trim_sublist argument))
    cases hunquote : unquote? (trim argument) with
    | some value => exact unquote?_sublist hunquote
    | none => exact unescape_sublist _
  | not _ halternatives =>
    obtain ⟨-, rfl⟩ := Prod.mk.inj (Option.some.inj hcall)
    exact hread _ halternatives
  | formula hposition formula =>
    rw [call?_of_formulaKeyword? hposition] at hcall
    obtain ⟨-, rfl⟩ := Prod.mk.inj (Option.some.inj hcall)
    rw [count_render hx]
    exact Nat.zero_le _

theorem count_testBody (hx : IsMark x) (test : AttributeTest) :
    (testBody test).count x ≤ (test.name.toList ++ test.value.toList).count x := by
  obtain ⟨hbackslash, hquote, -⟩ := hx.ne
  have htoken (comparison : Comparison) : comparison.token.count x = 0 := by
    apply hx.count_eq_zero
    cases comparison <;> exact forall_of_all (by decide)
  rw [testBody, List.count_append, List.count_append, count_escapeName hbackslash]
  cases testChars_cases test.comparison test.value.toList with
  | inl h =>
    rw [h, List.count_nil]
    omega
  | inr h =>
    rw [h, List.count_append, htoken, count_quote hbackslash hquote]
    omega

theorem count_le_of_spells (hx : IsMark x) (h : Spells fresh text part more)
    (hread : ∀ argument alternatives, argument.length < text.length →
      read argument = .ok alternatives →
        (Selector.chars alternatives).count x ≤ argument.count x) :
    part.chars.count x ≤ text.count x := by
  have hname (name : List Char) :
      (escapeName (String.ofList (unescape name)).toList).count x ≤ name.count x := by
    rw [count_escapeName hx.ne.1, String.toList_ofList]
    exact (unescape_sublist name).count_le x
  cases h with
  | universal => exact Nat.le_refl _
  | @tag c name =>
    rw [chars_tag, count_escapeTag hx.ne.1, String.toList_ofList]
    exact (unescape_sublist (c :: name)).count_le x
  | @id name =>
    rw [chars_id, count_cons_add, count_cons_add '#' name]
    exact Nat.add_le_add_left (hname name) _
  | @className name =>
    rw [chars_className, count_cons_add, count_cons_add '.' name]
    exact Nat.add_le_add_left (hname name) _
  | @test body _ test _ htest =>
    have hbody := (count_testBody hx test).trans ((attributeTest?_sublist htest).count_le x)
    rw [chars_test, List.cons_append, List.cons_append, count_cons_add,
      count_cons_add '[' (body ++ [']']), List.count_append, List.count_append]
    omega
  | keyword _ _ _ hkey =>
    obtain ⟨-, hword, hchars⟩ := keyword?_eq_some hkey
    rw [hchars, count_pseudoText_none hx, hword.count_eq_zero hx]
    exact Nat.zero_le _
  | @call name argument _ word _ _ _ _ hcall =>
    obtain ⟨printed, hprinted⟩ := hcall.exists_call?
    have hle := count_argument_le hx hcall hprinted fun alternatives =>
      hread argument alternatives (length_argument_lt false name argument)
    rw [chars_of_call? hprinted, count_pseudoText_some hx, count_pseudoText_some hx,
      (isWord_of_call? hprinted).count_eq_zero hx]
    omega
  | unread => rw [chars_unmatchable, String.toList_ofList]

/-! The text of a chain. -/

def itemsChars : List Item → List Char
  | [] => []
  | .combinator _ :: its => itemsChars its
  | .compound parts :: its => Compound.chars parts ++ itemsChars its

theorem itemsChars_append (its more : List Item) :
    itemsChars (its ++ more) = itemsChars its ++ itemsChars more := by
  induction its with
  | nil => rfl
  | cons item its ih =>
    cases item with
    | combinator k => exact ih
    | compound parts => rw [List.cons_append, itemsChars, ih, itemsChars, List.append_assoc]

theorem itemsChars_endCompound {before : List Item}
    (h : endCompound parts bareSigil = .ok before) : itemsChars before = Compound.chars parts := by
  cases endCompound_eq_ok_iff.1 h with
  | inl h =>
    obtain ⟨rfl, -⟩ := h
    exact List.append_nil _
  | inr h =>
    obtain ⟨rfl, rfl, -⟩ := h
    rfl

theorem count_itemsChars_le (hx : IsMark x) (h : Scans fresh parts bareSigil cs its)
    (hbound : cs.length ≤ bound) (hread : ∀ argument alternatives, argument.length < bound →
      read argument = .ok alternatives →
        (Selector.chars alternatives).count x ≤ argument.count x) :
    (itemsChars its).count x ≤ (Compound.chars parts).count x + cs.count x := by
  induction h with
  | done hend =>
    rw [itemsChars_endCompound hend]
    exact Nat.le_add_right _ _
  | blank htakes hend _ ih =>
    rw [List.length_append] at hbound
    have hits := ih (by omega)
    rw [chars_nil, List.count_nil] at hits
    rw [itemsChars_append, itemsChars_endCompound hend, List.count_append, List.count_append]
    omega
  | combinator htakes hend _ ih =>
    rw [List.length_append] at hbound
    have hits := ih (by omega)
    rw [chars_nil, List.count_nil] at hits
    rw [itemsChars_append, itemsChars_endCompound hend, itemsChars, List.count_append,
      List.count_append]
    omega
  | bareSigil htakes _ ih =>
    rw [List.length_append] at hbound
    have hits := ih (by omega)
    rw [List.count_append]
    omega
  | @part _ _ _ text more _ part _ htakes hyields _ ih =>
    rw [List.length_append] at hbound
    have hits := ih (by omega)
    have hpart : part.chars.count x ≤ text.count x := by
      apply count_le_of_spells hx (spells_of_takes htakes hyields)
      intro argument alternatives hlength
      exact hread argument alternatives (by omega)
    rw [chars_append, List.count_append, chars_cons, List.count_append,
      chars_nil, List.count_nil] at hits
    rw [List.count_append]
    omega

theorem count_combinator (hx : IsMark x) (k : Combinator) : k.chars.count x = 0 := by
  apply hx.count_eq_zero
  cases k <;> exact forall_of_all (by decide)

theorem itemsChars_stepItems (k : Combinator) (parts : Compound) :
    itemsChars (stepItems k parts) = Compound.chars parts := by
  cases k <;> exact List.append_nil _

theorem count_chainItems (hx : IsMark x) (chain : Chain) :
    (itemsChars (chainItems chain)).count x = chain.chars.count x := by
  induction chain with
  | compound parts => rw [chainItems, itemsChars, itemsChars, List.append_nil, chars_compound]
  | step left k parts ih =>
    rw [chainItems, itemsChars_append, itemsChars_stepItems, List.count_append, ih, chars_step,
      List.count_append, List.count_append, count_combinator hx, Nat.add_zero]

theorem count_chain_le (hx : IsMark x) (h : readChain read text = .ok chain)
    (hread : ∀ argument alternatives, argument.length < text.length →
      read argument = .ok alternatives →
        (Selector.chars alternatives).count x ≤ argument.count x) :
    chain.chars.count x ≤ text.count x := by
  cases readChain_cases h with
  | inl hscans =>
    have hits := count_itemsChars_le hx hscans (Nat.le_refl _) hread
    rwa [count_chainItems hx, chars_nil, List.count_nil,
      Nat.zero_add] at hits
  | inr hchain =>
    rw [hchain, Chain.unmatchable, chars_compound, chars_cons, chars_unmatchable,
      String.toList_ofList, chars_nil, List.append_nil]

/-! Lists of texts, each with a comma behind it. -/

def ended (texts : List (List Char)) : List Char := texts.flatMap (· ++ [','])

theorem ended_cons (text : List Char) (texts : List (List Char)) :
    ended (text :: texts) = text ++ ',' :: ended texts := by
  simp [ended]

theorem ended_splitOuter (n : Nesting) (cs : List Char) :
    ended (splitOuter n cs) = cs ++ [','] := by
  have hadd (text : List Char) (n : Nesting) (cs : List Char) :
      ended (addToFirst text (splitOuter n cs)) = text ++ ended (splitOuter n cs) := by
    cases hsplit : splitOuter n cs with
    | nil => exact absurd hsplit (splitOuter_ne_nil n cs)
    | cons piece pieces => rw [addToFirst, ended_cons, ended_cons, List.append_assoc]
  fun_induction splitOuter n cs with
  | case1 => rfl
  | case2 => rfl
  | case3 n c rest ih =>
    rw [hadd, ih]
    rfl
  | case4 n c rest _ _ hcomma ih =>
    rw [Bool.and_eq_true, beq_iff_eq] at hcomma
    rw [ended_cons, ih, hcomma.1]
    rfl
  | case5 n c rest _ _ _ ih =>
    rw [hadd, ih]
    rfl

def pieces : List Chain → List (List Char)
  | [] => []
  | chain :: chains => chain.chars :: chains.map (' ' :: ·.chars)

theorem ended_pieces (chain : Chain) (chains : List Chain) :
    ended (pieces (chain :: chains)) = Selector.chars (chain :: chains) ++ [','] := by
  induction chains generalizing chain with
  | nil => rw [pieces, List.map_nil, ended_cons, chars_singleton]; rfl
  | cons next more ih =>
    have hnext := ih next
    rw [pieces, ended_cons] at hnext
    rw [pieces, List.map_cons, ended_cons, ended_cons, List.cons_append, hnext, chars_cons_cons]
    simp

theorem count_ended_pieces (hx : IsMark x) (selector : List Chain) :
    (ended (pieces selector)).count x = (ended (selector.map Chain.chars)).count x := by
  obtain ⟨-, -, hblank, -⟩ := hx.ne
  have hmap (chains : List Chain) : (ended (chains.map (' ' :: ·.chars))).count x =
      (ended (chains.map Chain.chars)).count x := by
    induction chains with
    | nil => rfl
    | cons chain chains ih =>
      rw [List.map_cons, List.map_cons, ended_cons, ended_cons, List.count_append,
        List.count_append, List.count_cons_of_ne (Ne.symm hblank), count_cons_add, ih,
        ← count_cons_add]
  cases selector with
  | nil => rfl
  | cons chain chains =>
    rw [pieces, List.map_cons, ended_cons, ended_cons, List.count_append, List.count_append,
      count_cons_add, hmap, ← count_cons_add]

theorem count_ended_le {texts : List (List Char)} {selector : List Chain}
    (h : List.Forall₂ (fun text chain => chain.chars.count x ≤ text.count x)
      ((texts.map trim).filter (!·.isEmpty)) selector) :
    (ended (selector.map Chain.chars)).count x ≤ (ended texts).count x := by
  induction texts generalizing selector with
  | nil =>
    cases h
    exact Nat.le_refl _
  | cons text texts ih =>
    rw [ended_cons, List.count_append, count_cons_add]
    by_cases htrim : trim text = []
    · rw [List.map_cons, List.filter_cons_of_neg (by simp [htrim])] at h
      have hrest := ih h
      omega
    · rw [List.map_cons, List.filter_cons_of_pos (by simpa using htrim)] at h
      cases h with
      | cons hchain hchains =>
        have hrest := ih hchains
        have htext := (trim_sublist text).count_le x
        rw [List.map_cons, ended_cons, List.count_append, count_cons_add ',']
        omega

/-- A tree prints no more marks than the text held from which it was read. -/
theorem count_chars_le (hx : IsMark x) {selector : List Chain} (h : read cs = .ok selector) :
    (Selector.chars selector).count x ≤ cs.count x := by
  induction hlength : cs.length using Nat.strongRecOn generalizing cs selector with
  | ind k ih =>
    subst hlength
    cases selector with
    | nil => exact Nat.zero_le _
    | cons chain chains =>
      have hchains := (List.forall₂_and_left (chainTexts cs) (chain :: chains)).2
        ⟨fun text htext => htext, read_eq_ok_iff.1 h⟩
      have hle := count_ended_le (x := x) (hchains.imp ?_)
      · rw [← count_ended_pieces hx, ended_pieces, ended_splitOuter, List.count_append,
          List.count_append] at hle
        omega
      · intro text chain hchain
        obtain ⟨htext, hread⟩ := hchain
        apply count_chain_le hx hread
        intro argument alternatives hlength halternatives
        have hle := length_le_of_mem_chainTexts htext
        exact ih argument.length (by omega) halternatives rfl

end DomQuery.Selector
