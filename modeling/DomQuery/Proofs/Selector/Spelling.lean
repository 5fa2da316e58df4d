import DomQuery.Proofs.Selector.Rereading

/-!
The parts of the language and the texts that they are read from. A text spells a part, or it is no
part of the language and spells a part that keeps it.
-/
namespace DomQuery.Selector
open Text

variable {fresh doubleColon : Bool} {next : Option Char} {text more name argument : List Char}
  {word : String} {l : Lexeme} {part : Part}

/-! Pseudo-classes. -/

/-- What the name of a pseudo-class stands for together with an argument. -/
inductive Called : (word : String) → (argument : List Char) → Part → Prop
  | contains {argument : List Char} : Called "contains" argument
    (.contains (String.ofList ((unquote? (trim argument)).getD (unescape (trim argument)))))
  | not {argument : List Char} {alternatives : List Chain} (hne : alternatives ≠ [])
    (hread : read argument = .ok alternatives) : Called "not" argument (.not alternatives)
  | formula {word : String} {argument : List Char} {position : Formula → Position}
    (hposition : formulaKeyword? word = some position) (formula : Formula) :
    Called word argument (.position (position formula))

theorem called_of_withArgument? (h : withArgument? read word argument = .ok (some part)) :
    Called word argument part := by
  unfold withArgument? at h
  split at h
  · rename_i hword
    obtain rfl := beq_iff_eq.1 hword
    obtain rfl := Option.some.inj (Except.ok.inj h)
    exact .contains
  split at h
  · rename_i hword
    obtain rfl := beq_iff_eq.1 hword
    obtain ⟨alternatives, hread, hpart⟩ := bind_eq_ok.1 h
    replace hpart := Except.ok.inj hpart
    split at hpart
    · exact absurd hpart nofun
    · rename_i hne
      obtain rfl := Option.some.inj hpart
      exact .not (by simpa using hne) hread
  · split at h
    · rename_i position hposition
      obtain ⟨formula, -, rfl⟩ := Option.map_eq_some_iff.1 (Except.ok.inj h)
      exact .formula hposition formula
    · exact absurd (Except.ok.inj h) nofun

theorem call?_of_formulaKeyword? {position : Formula → Position}
    (h : formulaKeyword? word = some position) (formula : Formula) :
    call? (.position (position formula)) = some (word, formula.render.toList) := by
  unfold formulaKeyword? at h
  split at h
  all_goals cases h
  all_goals rfl

theorem Called.exists_call? (h : Called word argument part) :
    ∃ printed, call? part = some (word, printed) := by
  cases h with
  | contains => exact ⟨_, rfl⟩
  | not => exact ⟨_, rfl⟩
  | formula hposition formula => exact ⟨_, call?_of_formulaKeyword? hposition formula⟩

theorem Called.read_eq {alternatives : List Chain} (h : Called word argument (.not alternatives)) :
    read argument = .ok alternatives := by
  cases h with
  | not _ hread => exact hread

/-- What a pseudo-class stands for, by its name and its argument. -/
inductive Denotes : (doubleColon : Bool) → (name : List Char) → Option (List Char) → Part → Prop
  | keyword {name : List Char} {word : String} {part : Part}
    (hword : (unescape name).map Char.toLower = word.toList) (hkey : keyword? word = some part) :
    Denotes false name none part
  | call {name argument : List Char} {word : String} {part : Part}
    (hword : (unescape name).map Char.toLower = word.toList)
    (hcall : Called word argument part) : Denotes false name (some argument) part
  | unknown {doubleColon : Bool} {name : List Char} {argument : Option (List Char)} :
    Denotes doubleColon name argument
      (.unmatchable (String.ofList (pseudoText doubleColon name argument)))

theorem denotes_of_pseudoPart {argument : Option (List Char)}
    (h : pseudoPart read doubleColon name argument = .ok part) :
    Denotes doubleColon name argument part := by
  have hknown {known : Option Part}
      (hpart : part = known.getD (.unmatchable (String.ofList (pseudoText doubleColon name argument))))
      (hdenotes : ∀ part, known = some part → Denotes doubleColon name argument part) :
      Denotes doubleColon name argument part := by
    cases known with
    | none => exact hpart ▸ .unknown
    | some part => exact hpart ▸ hdenotes part rfl
  have hword : (unescape name).map Char.toLower =
      (String.ofList ((unescape name).map Char.toLower)).toList := String.toList_ofList.symm
  unfold pseudoPart at h
  dsimp only at h
  split at h
  · exact hknown (Except.ok.inj h).symm nofun
  · rename_i hplain
    simp only [Bool.or_eq_true, not_or, Bool.not_eq_true] at hplain
    obtain ⟨rfl, -⟩ := hplain
    split at h
    · exact hknown (Except.ok.inj h).symm fun _ => .keyword hword
    · obtain ⟨known, hargument, hpart⟩ := bind_eq_ok.1 h
      refine hknown (Except.ok.inj hpart).symm ?_
      intro part hpart
      exact .call hword (called_of_withArgument? (hpart ▸ hargument))

theorem keyword?_eq_some (h : keyword? word = some part) :
    IsKeyword part ∧ IsWord word ∧ part.chars = pseudoText false word.toList none := by
  unfold keyword? at h
  split at h
  all_goals cases h
  all_goals exact ⟨trivial, by decide, rfl⟩

/-! Names and what stands behind them. -/

theorem endsName_of_nameSpan (h : nameSpan (name ++ more) = (name, more)) :
    EndsName more.head? := by
  have hend := not_continuesName_behind_nameSpan (name ++ more)
  rwa [h] at hend

theorem escaped_of_nameSpan (h : nameSpan (name ++ more) = (name, more)) (hmore : more ≠ []) :
    Escaped (isNameChar ·) name := by
  have hescaped := escaped_nameSpan (name ++ more)
  rw [h] at hescaped
  cases hescaped with
  | inl hescaped => exact hescaped
  | inr hlast => exact absurd hlast.1 hmore

/-- The name before an argument is a whole name, since the parenthesis does not continue it. -/
theorem escaped_of_call
    (h : nameSpan (name ++ '(' :: argument ++ ')' :: more) =
      (name, '(' :: argument ++ ')' :: more)) : Escaped (isNameChar ·) name := by
  rw [List.append_assoc] at h
  exact escaped_of_nameSpan h (List.cons_ne_nil _ _)

theorem nameSpan_self_of_nameSpan (h : nameSpan (name ++ more) = (name, more)) :
    nameSpan name = (name, []) := by
  by_cases hmore : more = []
  · subst hmore
    rwa [List.append_nil] at h
  · exact (escaped_of_nameSpan h hmore).nameSpan_self

/-! Pseudo-classes that draw in nothing of what stands behind them. -/

theorem head?_of_awaitsArgument (h : awaitsArgument text) : text.head? = some ':' := by
  cases text with
  | nil => cases h
  | cons c rest =>
    obtain ⟨text, l, more, happend, hlexeme, htakes⟩ := exists_takes false c rest
    rw [awaitsArgument, hlexeme, Bool.and_eq_true] at h
    obtain ⟨hbare, -⟩ := h
    rw [happend]
    cases htakes with
    | @pseudo doubleColon => cases doubleColon <;> rfl
    | _ => cases hbare

theorem awaitsArgument_call (hname : Escaped (isNameChar ·) name) (hargument : IsEnclosed argument) :
    awaitsArgument (pseudoText doubleColon name (some argument)) = false := by
  have htakes : Takes false (pseudoText doubleColon name (some argument))
    (.pseudo doubleColon name (some argument)) [] := takes_call hname hargument
  obtain ⟨c, cs, htext, hlexeme⟩ := htakes.lexeme_eq
  rw [List.append_nil] at hlexeme
  rw [htext, awaitsArgument, hlexeme]
  rfl

theorem head?_of_runsInto (h : RunsInto text next) : text.head? = some ':' := by
  cases h with
  | inl h => exact head?_of_awaitsArgument h.1
  | inr h => rw [h.1]; rfl

theorem not_runsInto_pseudo (hcolon : doubleColon = false → (name ++ more).head? ≠ some ':')
    (hmore : more.head? ≠ some '(') : ¬ RunsInto (pseudoText doubleColon name none) more.head? := by
  intro h
  cases h with
  | inl h => exact hmore h.2
  | inr h =>
    obtain ⟨htext, hnext⟩ := h
    cases doubleColon with
    | true => exact absurd htext nofun
    | false =>
      rw [pseudoText_none] at htext
      obtain rfl := (List.cons.inj htext).2
      exact hcolon rfl hnext

theorem not_runsInto_call (hname : Escaped (isNameChar ·) name) (hargument : IsEnclosed argument) :
    ¬ RunsInto (pseudoText doubleColon name (some argument)) next := by
  intro h
  cases h with
  | inl h =>
    rw [awaitsArgument_call hname hargument] at h
    exact absurd h.1 nofun
  | inr h =>
    have hlength := congrArg List.length h.1
    simp only [pseudoText, List.length_append, List.length_cons, List.length_nil] at hlength
    omega

/-! Parts. -/

/-- The text is read as the part when `more` stands behind it. -/
inductive Spells (fresh : Bool) : (text : List Char) → Part → (more : List Char) → Prop
  | universal {more : List Char} : Spells fresh ['*'] .universal more
  | tag {c : Char} {name more : List Char} (hfresh : fresh = true) (hc : startsTag c)
    (hname : nameSpan (c :: name ++ more) = (c :: name, more)) :
    Spells fresh (c :: name) (.tag (String.ofList (unescape (c :: name)))) more
  | id {name more : List Char} (hname : nameSpan (name ++ more) = (name, more))
    (hne : unescape name ≠ []) :
    Spells fresh ('#' :: name) (.id (String.ofList (unescape name))) more
  | className {name more : List Char} (hname : nameSpan (name ++ more) = (name, more))
    (hne : unescape name ≠ []) :
    Spells fresh ('.' :: name) (.className (String.ofList (unescape name))) more
  | test {body more : List Char} {test : AttributeTest}
    (hbody : enclosed none ']' 0 none (body ++ ']' :: more) = .closed body more)
    (htest : attributeTest? body = some test) :
    Spells fresh ('[' :: body ++ [']']) (.attribute test) more
  | keyword {name more : List Char} {word : String} {part : Part}
    (hname : nameSpan (name ++ more) = (name, more))
    (hruns : ¬ RunsInto (pseudoText false name none) more.head?)
    (hword : (unescape name).map Char.toLower = word.toList) (hkey : keyword? word = some part) :
    Spells fresh (pseudoText false name none) part more
  | call {name argument more : List Char} {word : String} {part : Part}
    (hname : Escaped (isNameChar ·) name)
    (hargument : enclosed (some '(') ')' 0 none (argument ++ ')' :: more) = .closed argument more)
    (hword : (unescape name).map Char.toLower = word.toList)
    (hcall : Called word argument part) :
    Spells fresh (pseudoText false name (some argument)) part more
  | unread {text more : List Char} (hunread : Unread fresh more.head? text)
    (hruns : ¬ RunsInto text more.head?) : Spells fresh text (.unmatchable (String.ofList text)) more

theorem spells_pseudo (hname : nameSpan (name ++ more) = (name, more))
    (hcolon : doubleColon = false → (name ++ more).head? ≠ some ':')
    (hmore : more.head? ≠ some '(') (hpart : pseudoPart read doubleColon name none = .ok part) :
    Spells fresh (pseudoText doubleColon name none) part more := by
  have hruns := not_runsInto_pseudo hcolon hmore
  cases denotes_of_pseudoPart hpart with
  | keyword hword hkey => exact .keyword hname hruns hword hkey
  | unknown =>
    refine .unread (.pseudo (nameSpan_self_of_nameSpan hname) ?_ (endsName_of_nameSpan hname) hpart)
      hruns
    by_cases hnil : more = []
    · exact .inr (by rw [hnil]; rfl)
    · exact .inl (escaped_of_nameSpan hname hnil)

theorem spells_call (hname : Escaped (isNameChar ·) name)
    (hargument : enclosed (some '(') ')' 0 none (argument ++ ')' :: more) = .closed argument more)
    (hpart : pseudoPart read doubleColon name (some argument) = .ok part) :
    Spells fresh (pseudoText doubleColon name (some argument)) part more := by
  cases denotes_of_pseudoPart hpart with
  | call hword hcall => exact .call hname hargument hword hcall
  | unknown =>
    have henclosed := enclosed_inside hargument []
    exact .unread (.call hname henclosed hpart) (not_runsInto_call hname henclosed)

theorem spells_of_takes (htakes : Takes fresh text l more) (hyields : l.Yields part) :
    Spells fresh text part more := by
  cases htakes with
  | blank => exact hyields.elim
  | combinator => exact hyields.elim
  | comma => exact hyields.elim
  | bareSigil => exact hyields.elim
  | fault => exact hyields.elim
  | universal =>
    obtain rfl := hyields
    exact .universal
  | tag hfresh hc hname =>
    obtain rfl := hyields
    exact .tag hfresh hc hname
  | id hname hne =>
    obtain rfl := hyields
    exact .id hname hne
  | className hname hne =>
    obtain rfl := hyields
    exact .className hname hne
  | @bracket body _ hbody =>
    obtain rfl := hyields
    unfold attributePart
    cases htest : attributeTest? body with
    | some test => exact .test hbody htest
    | none =>
      refine .unread (.bracket (enclosed_inside hbody []) htest) fun hruns => ?_
      exact absurd (Option.some.inj (head?_of_runsInto hruns)) (by decide)
  | pseudo hname hcolon hmore => exact spells_pseudo hname hcolon hmore hyields
  | call hname _ hargument => exact spells_call (escaped_of_call hname) hargument hyields
  | junk hc hstart hfresh hjunk hmore =>
    obtain rfl := hyields
    refine .unread (.junk hc hstart hfresh hjunk hmore) fun hruns => ?_
    exact hstart.2.2.2 (Option.some.inj (head?_of_runsInto hruns))

theorem Spells.not_runsInto (h : Spells fresh text part more) : ¬ RunsInto text more.head? := by
  intro hruns
  have hhead := head?_of_runsInto hruns
  cases h with
  | universal => exact absurd (Option.some.inj hhead) (by decide)
  | tag _ hc =>
    obtain rfl := Option.some.inj hhead
    exact absurd hc (by decide)
  | id => exact absurd (Option.some.inj hhead) (by decide)
  | className => exact absurd (Option.some.inj hhead) (by decide)
  | test => exact absurd (Option.some.inj hhead) (by decide)
  | keyword _ hnot => exact hnot hruns
  | call hname hargument => exact not_runsInto_call hname (enclosed_inside hargument []) hruns
  | unread _ hnot => exact hnot hruns

theorem Spells.head?_chars (h : Spells false text part more) : part.chars.head? = text.head? := by
  cases h with
  | universal => rfl
  | tag hfresh => exact absurd hfresh nofun
  | id => rfl
  | className => rfl
  | test => rfl
  | keyword _ _ _ hkey =>
    rw [(keyword?_eq_some hkey).2.2]
    rfl
  | call _ _ _ hcall =>
    obtain ⟨printed, hprinted⟩ := hcall.exists_call?
    rw [chars_of_call? hprinted]
    rfl
  | unread => rw [chars_unmatchable, String.toList_ofList]

end DomQuery.Selector
