import DomQuery.Proofs.Selector.Spelling

/-!
Reading gives legible trees only. The parts that were read are followed along the text, and what
stands behind a part in the text is compared with what will be printed behind it.
-/
namespace DomQuery.Selector
open Text

variable {fresh first bareSigil : Bool} {next : Option Char} {c : Char}
  {cs text more body : List Char} {l : Lexeme} {part : Part} {parts : Compound} {its : List Item}
  {chain : Chain} {bound : Nat}

theorem comparison?_ne_present {raw : List Char} : comparison? cs ≠ some (.present, raw) := by
  unfold comparison?
  split
  all_goals simp

theorem legible_of_attributeTest? {test : AttributeTest} (h : attributeTest? body = some test) :
    test.Legible := by
  unfold attributeTest? at h
  dsimp only at h
  have hname : ∀ c ∈ unescape ((trim body).takeWhile (!endsAttributeName ·)),
      endsAttributeName c = false := by
    intro c hc
    have hmem := (unescape_sublist _).subset hc
    simpa using List.all_eq_true.1 List.all_takeWhile c hmem
  split at h
  · exact absurd h nofun
  rename_i hne
  have hne : String.ofList (unescape ((trim body).takeWhile (!endsAttributeName ·))) ≠ "" := by
    simpa using hne
  split at h
  · obtain rfl := Option.some.inj h
    exact ⟨hne, by rwa [String.toList_ofList], fun _ => rfl⟩
  · obtain ⟨⟨comparison, raw⟩, hcomparison, h⟩ := Option.bind_eq_some_iff.1 h
    obtain ⟨value, -, h⟩ := Option.bind_eq_some_iff.1 h
    obtain rfl := Option.some.inj h
    refine ⟨hne, by rwa [String.toList_ofList], ?_⟩
    intro hpresent
    replace hpresent : comparison = .present := hpresent
    subst hpresent
    exact absurd hcomparison comparison?_ne_present

theorem legible_of_spells (h : Spells fresh text part more)
    (hread : ∀ argument alternatives, argument.length < text.length →
      read argument = .ok alternatives → Selector.Legible alternatives) :
    part.Legible fresh more.head? := by
  cases h with
  | universal => trivial
  | @tag c name _ hfresh hc hname =>
    refine ⟨hfresh, endsName_of_nameSpan hname, ?_⟩
    intro hempty
    have hnil : unescape (c :: name) = [] := by simpa using hempty
    by_cases hmore : more = []
    · rw [hmore]
      rfl
    · -- Only a lone backslash stands for no name, and one with a character behind it is not alone.
      have hescaped := escaped_of_nameSpan hname hmore
      cases unescape_eq_nil hnil with
      | inl h => exact absurd h (List.cons_ne_nil _ _)
      | inr h =>
        rw [h] at hescaped
        cases hescaped with
        | plain _ hne => exact absurd rfl hne
  | id hname hne => exact ⟨by simpa using hne, endsName_of_nameSpan hname⟩
  | className hname hne => exact ⟨by simpa using hne, endsName_of_nameSpan hname⟩
  | test _ htest => exact legible_of_attributeTest? htest
  | keyword hname _ _ hkey =>
    exact (legible_keyword_iff (keyword?_eq_some hkey).1).2 (endsName_of_nameSpan hname)
  | @call name argument _ word _ _ _ _ hcall =>
    cases hcall with
    | contains => trivial
    | not hne halternatives =>
      exact ⟨hne, hread argument _ (length_argument_lt false name argument) halternatives⟩
    | formula hposition =>
      intro hkeyword
      unfold formulaKeyword? at hposition
      split at hposition
      all_goals cases hposition
      all_goals exact absurd hkeyword not_false
  | unread hunread => rwa [Part.Legible, String.toList_ofList]

/-! What is printed behind a part, in place of what was read behind it. -/

theorem legible_behind (h : part.Legible first (some c)) (hnext : EndsName next)
    (hjunk : endsJunk c → ∀ x ∈ next, endsJunk x) : part.Legible first next := by
  cases part with
  | universal => trivial
  | tag name => exact ⟨h.1, hnext, fun hempty => absurd (h.2.2 hempty) nofun⟩
  | id name => exact ⟨h.1, hnext⟩
  | className name => exact ⟨h.1, hnext⟩
  | «attribute» test => exact h
  | position position => exact fun _ => hnext
  | empty => exact hnext
  | root => exact hnext
  | contains text => trivial
  | not alternatives => exact h
  | unmatchable text =>
    rw [Part.Legible] at h ⊢
    generalize text.toList = cs at h
    cases h with
    | junk hc hstart hfirst hall hend =>
      exact .junk hc hstart hfirst hall (hjunk (hend c rfl))
    | bracket hbody htest => exact .bracket hbody htest
    | pseudo hname hescaped _ hpart =>
      refine .pseudo hname ?_ hnext hpart
      cases hescaped with
      | inl hescaped => exact .inl hescaped
      | inr hnone => exact absurd hnone nofun
    | call hname hargument hpart => exact .call hname hargument hpart

theorem legible_compound_behind (h : Compound.Legible first (some c) parts) (hnext : EndsName next)
    (hjunk : endsJunk c → ∀ x ∈ next, endsJunk x) : Compound.Legible first next parts := by
  induction parts generalizing first with
  | nil => trivial
  | cons part parts ih =>
    obtain ⟨hpart, hparts⟩ := h
    refine ⟨?_, ih hparts⟩
    cases hhead : (Compound.chars parts).head? with
    | none =>
      rw [hhead] at hpart
      exact legible_behind hpart hnext hjunk
    | some d => rwa [hhead] at hpart

theorem legible_first (h : part.Legible false next) (hstart : EndsName part.chars.head?) :
    part.Legible true next := by
  cases part with
  | tag name => exact absurd h.1 nofun
  | unmatchable text =>
    replace hstart : EndsName text.toList.head? := hstart
    rw [Part.Legible] at h ⊢
    generalize text.toList = cs at h hstart
    cases h with
    | @junk c junk hc hstart' _ hall hend =>
      refine .junk hc hstart' (fun htag => ?_) hall hend
      have hcontinues : continuesName c := by
        rw [continuesName, Bool.or_eq_true, beq_iff_eq]
        exact (startsTag_iff.1 htag).imp And.left id
      exact absurd hcontinues (hstart c rfl)
    | bracket hbody htest => exact .bracket hbody htest
    | pseudo hname hescaped hnext hpart => exact .pseudo hname hescaped hnext hpart
    | call hname hargument hpart => exact .call hname hargument hpart
  | _ => exact h

theorem chars_append (before parts : Compound) :
    Compound.chars (before ++ parts) = Compound.chars before ++ Compound.chars parts := by
  induction before with
  | nil => rfl
  | cons part before ih => rw [List.cons_append, chars_cons, ih, chars_cons, List.append_assoc]

theorem legible_concat (hparts : Compound.Legible first (part.chars.head?.or next) parts)
    (hpart : part.Legible (first && parts.isEmpty) next) :
    Compound.Legible first next (parts ++ [part]) := by
  induction parts generalizing first with
  | nil =>
    rw [List.isEmpty_nil, Bool.and_true] at hpart
    exact ⟨hpart, trivial⟩
  | cons part' parts ih =>
    obtain ⟨hpart', hparts⟩ := hparts
    rw [List.cons_append]
    refine ⟨?_, ih hparts (by simpa using hpart)⟩
    rwa [chars_append, List.head?_append, Option.or_assoc, chars_cons, List.head?_append,
      Option.or_assoc]

/-! Compounds, chains and lists of chains. -/

/-- What holds of the open compound while a chain is read. -/
structure IsOpenAt (fresh : Bool) (parts : Compound) (tail : List Char) : Prop where
  eq_nil : fresh = true → parts = []
  /-- Without parts, the compound has begun with a sigil. -/
  endsName : fresh = false → parts = [] → EndsName tail.head?
  legible : Compound.Legible true tail.head? parts

theorem isOpenAt_fresh (tail : List Char) : IsOpenAt true [] tail := ⟨fun _ => rfl, nofun, trivial⟩

theorem Takes.head?_append (h : Takes fresh text l more) :
    ∃ c, text.head? = some c ∧ (text ++ more).head? = some c := by
  obtain ⟨c, cs, rfl, -⟩ := h.lexeme_eq
  exact ⟨c, rfl, rfl⟩

theorem IsOpenAt.after_sigil (h : IsOpenAt fresh parts (text ++ more))
    (htakes : Takes fresh text .bareSigil more) : IsOpenAt false parts more := by
  have hlegible := h.legible
  cases htakes with
  | @bareSigil sigil name _ hsigil hname =>
    have hjunk : endsJunk sigil = false := by
      cases hsigil with
      | inl h => subst h; decide
      | inr h => subst h; decide
    have hnext := endsName_of_nameSpan hname
    refine ⟨nofun, fun _ _ => hnext, legible_compound_behind hlegible hnext ?_⟩
    exact fun hends => absurd hends (by simp [hjunk])

theorem IsOpenAt.after_part (h : IsOpenAt fresh parts (text ++ more)) (htakes : Takes fresh text l more)
    (hyields : l.Yields part) (hread : ∀ argument alternatives, argument.length < text.length →
      read argument = .ok alternatives → Selector.Legible alternatives) :
    IsOpenAt false (parts ++ [part]) more := by
  have hspells := spells_of_takes htakes hyields
  have hpart := legible_of_spells hspells hread
  refine ⟨nofun, fun _ hnil => absurd hnil (by simp), ?_⟩
  obtain ⟨c, htext, hhead⟩ := htakes.head?_append
  cases fresh with
  | true =>
    obtain rfl := h.eq_nil rfl
    exact ⟨hpart, trivial⟩
  | false =>
    have hchars := hspells.head?_chars.trans htext
    by_cases hparts : parts = []
    · subst hparts
      have hends := h.endsName rfl rfl
      rw [hhead, ← hchars] at hends
      exact ⟨legible_first hpart hends, trivial⟩
    · have hlegible := h.legible
      rw [hhead] at hlegible
      refine legible_concat (by rwa [hchars]) ?_
      rwa [List.isEmpty_eq_false_iff.2 hparts]

def follower (its : List Item) : Option Char := if its.isEmpty then none else some ' '

def ItemsLegible : List Item → Prop
  | [] => True
  | .combinator _ :: its => ItemsLegible its
  | .compound parts :: its =>
    parts ≠ [] ∧ Compound.Legible true (follower its) parts ∧ ItemsLegible its

theorem endsName_follower (its : List Item) :
    EndsName (follower its) ∧ ∀ c ∈ follower its, endsJunk c := by
  cases its with
  | nil => exact ⟨nofun, nofun⟩
  | cons item its =>
    constructor
    · intro c hc
      obtain rfl := Option.some.inj hc
      decide
    · intro c hc
      obtain rfl := Option.some.inj hc
      decide

theorem itemsLegible_endCompound {before : List Item} (hend : endCompound parts bareSigil = .ok before)
    (hparts : Compound.Legible true (some c) parts) (hits : ItemsLegible its) :
    ItemsLegible (before ++ its) := by
  obtain ⟨hnext, hjunk⟩ := endsName_follower its
  cases endCompound_eq_ok_iff.1 hend with
  | inl h =>
    obtain ⟨rfl, hne⟩ := h
    exact ⟨hne, legible_compound_behind hparts hnext fun _ => hjunk, hits⟩
  | inr h =>
    obtain ⟨rfl, -⟩ := h
    exact hits

theorem itemsLegible_of_scans (h : Scans fresh parts bareSigil cs its)
    (hopen : IsOpenAt fresh parts cs) (hbound : cs.length ≤ bound)
    (hread : ∀ argument alternatives, argument.length < bound → read argument = .ok alternatives →
      Selector.Legible alternatives) : ItemsLegible its := by
  induction h with
  | done hend =>
    cases endCompound_eq_ok_iff.1 hend with
    | inl h =>
      obtain ⟨rfl, hne⟩ := h
      exact ⟨hne, hopen.legible, trivial⟩
    | inr h =>
      obtain ⟨rfl, -⟩ := h
      trivial
  | blank htakes hend _ ih =>
    obtain ⟨c, -, hhead⟩ := htakes.head?_append
    rw [List.length_append] at hbound
    exact itemsLegible_endCompound hend (hhead ▸ hopen.legible)
      (ih (isOpenAt_fresh _) (by omega))
  | combinator htakes hend _ ih =>
    obtain ⟨c, -, hhead⟩ := htakes.head?_append
    rw [List.length_append] at hbound
    exact itemsLegible_endCompound hend (hhead ▸ hopen.legible)
      (ih (isOpenAt_fresh _) (by omega))
  | bareSigil htakes _ ih =>
    rw [List.length_append] at hbound
    exact ih (hopen.after_sigil htakes) (by omega)
  | part htakes hyields _ ih =>
    rw [List.length_append] at hbound
    refine ih (hopen.after_part htakes hyields ?_) (by omega)
    intro argument alternatives hlength
    exact hread argument alternatives (by omega)

theorem legible_of_items (h : ItemsLegible (chainItems chain ++ its)) :
    chain.Legible (follower its) ∧ ItemsLegible its := by
  induction chain generalizing its with
  | compound parts =>
    obtain ⟨hne, hparts, hits⟩ := h
    exact ⟨⟨hne, hparts⟩, hits⟩
  | step left k parts ih =>
    rw [chainItems, List.append_assoc] at h
    obtain ⟨hleft, hright⟩ := ih h
    have hfollower : follower (stepItems k parts ++ its) = some ' ' := by
      cases k <;> rfl
    have hparts : ItemsLegible (.compound parts :: its) := by
      cases k with
      | descendant => exact hright
      | child => exact hright
      | nextSibling => exact hright
      | subsequentSibling => exact hright
    obtain ⟨hne, hparts, hits⟩ := hparts
    rw [hfollower] at hleft
    exact ⟨⟨hleft, hne, hparts⟩, hits⟩

theorem legible_of_readChain (h : readChain read text = .ok chain) (htrim : trim text = text)
    (hne : text ≠ []) (hread : ∀ argument alternatives, argument.length < text.length →
      read argument = .ok alternatives → Selector.Legible alternatives) :
    chain.Legible none ∨ chain.IsSpoilt := by
  cases readChain_cases h with
  | inl hscans =>
    have hits := itemsLegible_of_scans hscans (isOpenAt_fresh text) (Nat.le_refl _) hread
    rw [← List.append_nil (chainItems chain)] at hits
    exact .inl (legible_of_items hits).1
  | inr hchain => exact .inr ⟨text, hchain, htrim, hne, h⟩

theorem trim_of_mem_chainTexts (h : text ∈ chainTexts cs) : trim text = text ∧ text ≠ [] := by
  obtain ⟨hmem, hne⟩ := List.mem_filter.1 h
  obtain ⟨piece, -, rfl⟩ := List.mem_map.1 hmem
  exact ⟨trim_trim piece, by simpa using hne⟩

theorem legible_of_forall₂ {texts : List (List Char)} {selector : List Chain}
    (h : List.Forall₂ (fun _ chain => Chain.Legible none chain ∨ chain.IsSpoilt) texts selector) :
    Selector.Legible selector := by
  induction h with
  | nil => trivial
  | cons hchain _ ih => exact ⟨hchain, ih⟩

/-- A tree that was read is legible. -/
theorem legible_of_read {selector : List Chain} (h : read cs = .ok selector) :
    Selector.Legible selector := by
  induction hlength : cs.length using Nat.strongRecOn generalizing cs selector with
  | ind k ih =>
    subst hlength
    have hchains := (List.forall₂_and_left (chainTexts cs) selector).2
      ⟨fun text htext => htext, read_eq_ok_iff.1 h⟩
    refine legible_of_forall₂ (hchains.imp ?_)
    intro text chain hchain
    obtain ⟨htext, hread⟩ := hchain
    obtain ⟨htrim, hne⟩ := trim_of_mem_chainTexts htext
    apply legible_of_readChain hread htrim hne
    intro argument alternatives hlength halternatives
    have hle := length_le_of_mem_chainTexts htext
    exact ih argument.length (by omega) halternatives rfl

end DomQuery.Selector
