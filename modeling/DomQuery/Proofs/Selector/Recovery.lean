import DomQuery.Proofs.Selector.Taken

/-!
A tree that is read back from its printed text was read part by part from the texts of its parts. So
the text came apart where it was put together: the tree is stable.
-/
namespace DomQuery.Selector
open Text

variable {fresh first bareSigil : Bool} {next : Option Char} {c : Char}
  {cs text more rest tail blanks : List Char} {part : Part} {parts before : Compound}
  {chain : Chain} {its : List Item} {k : Combinator}

/-! Readings by the first character. -/

theorem scans_nil_iff : Scans fresh parts bareSigil [] its ↔ endCompound parts bareSigil = .ok its := by
  rw [scans_iff, lexemes, items]

theorem scans_blank_iff (hc : isBlank c) : Scans fresh parts bareSigil (c :: cs) its ↔
    ∃ before more, endCompound parts bareSigil = .ok before ∧ Scans true [] false cs more ∧
      its = before ++ more := by
  have htakes : Takes fresh [c] .blank cs := .blank hc
  constructor
  · intro h
    rw [scans_iff, ← List.singleton_append, htakes.lexemes_append] at h
    obtain ⟨before, hend, h⟩ := bind_eq_ok.1 h
    obtain ⟨more, hmore, hits⟩ := bind_eq_ok.1 h
    exact ⟨before, more, hend, scans_of_items hmore, (Except.ok.inj hits).symm⟩
  · intro h
    obtain ⟨before, more, hend, hmore, rfl⟩ := h
    exact .blank htakes hend hmore

theorem scans_combinator_iff (hc : explicitCombinator? c = some k) :
    Scans fresh parts bareSigil (c :: cs) its ↔
      ∃ before more, endCompound parts bareSigil = .ok before ∧ Scans true [] false cs more ∧
        its = before ++ .combinator k :: more := by
  have htakes : Takes fresh [c] (.combinator k) cs := .combinator hc
  constructor
  · intro h
    rw [scans_iff, ← List.singleton_append, htakes.lexemes_append] at h
    obtain ⟨before, hend, h⟩ := bind_eq_ok.1 h
    obtain ⟨more, hmore, hits⟩ := bind_eq_ok.1 h
    exact ⟨before, more, hend, scans_of_items hmore, (Except.ok.inj hits).symm⟩
  · intro h
    obtain ⟨before, more, hend, hmore, rfl⟩ := h
    exact .combinator htakes hend hmore

theorem endCompound_nil_iff {ended : List Item} : endCompound [] false = .ok ended ↔ ended = [] := by
  rw [endCompound_eq_ok_iff]
  simp

theorem endCompound_cons_iff {ended : List Item} (hne : parts ≠ []) :
    endCompound parts bareSigil = .ok ended ↔ ended = [.compound parts] := by
  rw [endCompound_eq_ok_iff]
  simp [hne]

theorem prefix_of_scans {parts' : Compound} (hne : parts ≠ [])
    (h : Scans fresh parts bareSigil cs (.compound parts' :: its)) : parts <+: parts' := by
  generalize hits : Item.compound parts' :: its = its' at h
  induction h with
  | done hend =>
    obtain rfl := (endCompound_cons_iff hne).1 hend
    obtain rfl := Item.compound.inj (List.cons.inj hits).1
    exact List.prefix_rfl
  | blank _ hend =>
    obtain rfl := (endCompound_cons_iff hne).1 hend
    obtain rfl := Item.compound.inj (List.cons.inj hits).1
    exact List.prefix_rfl
  | combinator _ hend =>
    obtain rfl := (endCompound_cons_iff hne).1 hend
    obtain rfl := Item.compound.inj (List.cons.inj hits).1
    exact List.prefix_rfl
  | bareSigil _ _ ih => exact ih hne hits
  | @part _ _ parts _ _ _ part _ _ _ _ ih =>
    exact (List.prefix_append parts [part]).trans (ih (by simp) hits)

/-! Compounds. -/

theorem eq_nil_of_bareSigil (htakes : Takes fresh text .bareSigil more)
    (hlegible : part.Legible first rest.head?)
    (happend : text ++ more ++ blanks = part.chars ++ rest) : more = [] := by
  cases htakes with
  | @bareSigil sigil name _ hsigil hname hempty =>
    have hhead : (part.chars ++ rest).head? = some sigil := by
      rw [← happend]
      rfl
    obtain ⟨-, hnamed⟩ := head?_chars hlegible sigil hhead
    obtain ⟨printed, hne, hchars⟩ := hnamed hsigil
    rw [hchars] at happend
    replace happend : name ++ more ++ blanks = escapeName printed ++ rest :=
      (List.cons.inj happend).2
    cases more with
    | nil => rfl
    | cons d more =>
      -- The name that is printed behind the sigil would have been read.
      cases unescape_eq_nil hempty with
      | inl hnil =>
        subst hnil
        have hends := endsName_of_nameSpan hname d rfl
        have hprinted : (escapeName printed).head? = some d := by
          cases hcs : escapeName printed with
          | nil =>
            have hnil := unescape_escapeName printed
            rw [hcs] at hnil
            exact absurd hnil.symm hne
          | cons e cs =>
            rw [hcs] at happend
            exact congrArg some (List.cons.inj happend).1.symm
        exact absurd ((escaped_escapeName printed).continuesName d hprinted) hends
      | inr hbackslash =>
        subst hbackslash
        rw [List.singleton_append, nameSpan] at hname
        exact absurd (List.cons.inj (Prod.mk.inj hname).1).2 (List.cons_ne_nil _ _)

theorem spells_of_scans (hlegible : part.Legible first (Compound.chars parts ++ tail).head?)
    (h : Scans fresh before false text (.compound (before ++ part :: parts) :: its))
    (happend : text ++ blanks = part.chars ++ (Compound.chars parts ++ tail))
    (hcount : tail.count ')' ≤ (itemsChars its).count ')') :
    ∃ more, text = part.chars ++ more ∧ Spells fresh part.chars part more ∧
      Scans false (before ++ [part]) false more (.compound (before ++ part :: parts) :: its) := by
  have hends : before ≠ before ++ part :: parts := by
    simp
  have hbegin : ∀ c ∈ (text ++ blanks).head?, endsCompound c = false := by
    intro c hc
    rw [happend] at hc
    exact (head?_chars hlegible c hc).1
  generalize hits : Item.compound (before ++ part :: parts) :: its = its' at h
  cases h with
  | done hend =>
    cases endCompound_eq_ok_iff.1 hend with
    | inl h =>
      obtain ⟨rfl, -⟩ := h
      exact absurd (Item.compound.inj (List.cons.inj hits).1).symm hends
    | inr h => exact absurd (hits.trans h.1) (List.cons_ne_nil _ _)
  | blank htakes =>
    cases htakes with
    | @blank c _ hc => exact absurd (hbegin c rfl) (by simp [endsCompound, hc])
  | combinator htakes =>
    cases htakes with
    | @combinator c _ _ hc => exact absurd (hbegin c rfl) (by simp [endsCompound, hc])
  | bareSigil htakes h =>
    have hnil := eq_nil_of_bareSigil htakes hlegible happend
    subst hnil
    subst hits
    rw [scans_nil_iff, endCompound_eq_ok_iff] at h
    cases h with
    | inl h => exact absurd (Item.compound.inj (List.cons.inj h.1).1).symm hends
    | inr h => exact absurd h.1 (List.cons_ne_nil _ _)
  | @part _ _ _ text more l part' _ htakes hyields h =>
    subst hits
    obtain ⟨behind, hbehind⟩ := prefix_of_scans (by simp) h
    rw [List.append_assoc, List.append_cancel_left_eq] at hbehind
    obtain rfl := (List.cons.inj hbehind).1
    have hscanned := count_itemsChars_le (.inr rfl) h (Nat.le_refl _)
      fun argument alternatives _ => count_chars_le (.inr rfl)
    rw [itemsChars] at hscanned
    simp only [chars_append, chars_cons, chars_nil, List.count_append, List.count_nil] at hscanned
    rw [List.append_assoc] at happend
    have hspells := spells_of_takes htakes hyields
    obtain rfl := hspells.eq_chars hlegible happend fun _ _ => by
      simp only [List.count_append]
      omega
    exact ⟨more, rfl, hspells, h⟩

theorem stable_of_spells (h : Spells fresh part.chars part more)
    (hnot : ∀ alternatives, part = .not alternatives →
      read (Selector.chars alternatives) = .ok alternatives → Selector.Stable alternatives) :
    part.Stable := by
  cases part with
  | not alternatives =>
    obtain ⟨henclosed, hread⟩ := h.read_of_not
    obtain ⟨hcut, hstable⟩ := hnot alternatives rfl hread
    exact ⟨hcut, henclosed, hstable⟩
  | _ => trivial

theorem runsInto_of_append (hblanks : ∀ c ∈ blanks, isBlank c)
    (happend : more ++ blanks = cs ++ tail) (h : RunsInto text cs.head?) :
    RunsInto text more.head? := by
  have hhead (d : Char) (hd : cs.head? = some d) (hblank : ¬ isBlank d) : more.head? = some d := by
    obtain ⟨ds, rfl⟩ := List.head?_eq_some_iff.1 hd
    cases more with
    | nil =>
      rw [List.nil_append] at happend
      exact absurd (hblanks d (by simp [happend])) hblank
    | cons e more => exact congrArg some (List.cons.inj happend).1
  cases h with
  | inl h => exact .inl ⟨h.1, hhead '(' h.2 (by decide)⟩
  | inr h => exact .inr ⟨h.1, hhead ':' h.2 (by decide)⟩

theorem stable_compound_of_scans (hlegible : Compound.Legible first tail.head? parts)
    (h : Scans fresh before false text (.compound (before ++ parts) :: its))
    (hfresh : parts = [] → fresh = false)
    (happend : text ++ blanks = Compound.chars parts ++ tail) (hblanks : ∀ c ∈ blanks, isBlank c)
    (hcount : tail.count ')' ≤ (itemsChars its).count ')')
    (hnot : ∀ alternatives, .not alternatives ∈ parts →
      read (Selector.chars alternatives) = .ok alternatives → Selector.Stable alternatives) :
    Compound.Stable parts ∧ ∃ more, text = Compound.chars parts ++ more ∧
      Scans false (before ++ parts) false more (.compound (before ++ parts) :: its) := by
  induction parts generalizing first fresh before text with
  | nil =>
    rw [hfresh rfl] at h
    rw [List.append_nil] at h ⊢
    exact ⟨trivial, text, rfl, h⟩
  | cons part parts ih =>
    obtain ⟨hpart, hparts⟩ := hlegible
    rw [← List.head?_append] at hpart
    rw [chars_cons, List.append_assoc] at happend
    obtain ⟨more, rfl, hspells, hscans⟩ := spells_of_scans hpart h happend hcount
    rw [List.append_assoc, List.append_cancel_left_eq] at happend
    have hbefore : before ++ part :: parts = before ++ [part] ++ parts := by simp
    rw [hbefore] at hscans ⊢
    obtain ⟨hstable, behind, rfl, hbehind⟩ := ih hparts hscans (fun _ => rfl) happend
      fun alternatives hmem => hnot alternatives (List.mem_cons_of_mem part hmem)
    refine ⟨⟨?_, ?_, hstable⟩, behind, ?_, hbehind⟩
    · refine stable_of_spells hspells ?_
      rintro alternatives rfl
      exact hnot alternatives List.mem_cons_self
    · intro hruns
      exact hspells.not_runsInto (runsInto_of_append hblanks happend hruns)
    · rw [chars_cons, List.append_assoc]

/-! Chains. -/

theorem explicit_of_scans {next : Compound} (hk : explicitCombinator? c = some k)
    (h : Scans true [] false text (.combinator k :: .compound next :: its))
    (happend : text ++ blanks = c :: ' ' :: rest) :
    ∃ more, text = c :: ' ' :: more ∧ Scans true [] false more (.compound next :: its) := by
  cases text with
  | nil => exact absurd (endCompound_nil_iff.1 (scans_nil_iff.1 h)) (List.cons_ne_nil _ _)
  | cons d text =>
    obtain ⟨rfl, htext⟩ := List.cons.inj happend
    obtain ⟨ended, its', hended, hscans, hits⟩ := (scans_combinator_iff hk).1 h
    obtain rfl := endCompound_nil_iff.1 hended
    obtain rfl := (List.cons.inj hits).2
    cases text with
    | nil => exact absurd (endCompound_nil_iff.1 (scans_nil_iff.1 hscans)) (List.cons_ne_nil _ _)
    | cons e text =>
      obtain rfl := (List.cons.inj htext).1
      obtain ⟨ended, its', hended, hscans, hits⟩ := (scans_blank_iff (by decide)).1 hscans
      obtain rfl := endCompound_nil_iff.1 hended
      obtain rfl := hits
      exact ⟨text, rfl, hscans⟩

theorem step_of_scans {next : Compound} (hne : parts ≠ [])
    (h : Scans false parts false text (.compound parts :: (stepItems k next ++ its)))
    (happend : text ++ blanks = k.chars ++ rest) :
    ∃ more, text = k.chars ++ more ∧ Scans true [] false more (.compound next :: its) := by
  have hstep : stepItems k next ++ its ≠ [] := by
    cases k <;> exact List.cons_ne_nil _ _
  cases text with
  | nil =>
    have hended := (endCompound_cons_iff hne).1 (scans_nil_iff.1 h)
    exact absurd (List.cons.inj hended).2 hstep
  | cons d text =>
    have hblank : d = ' ' := by
      cases k <;> exact (List.cons.inj happend).1
    subst hblank
    obtain ⟨ended, its', hended, hscans, hits⟩ := (scans_blank_iff (by decide)).1 h
    obtain rfl := (endCompound_cons_iff hne).1 hended
    obtain rfl := (List.cons.inj hits).2
    have hexplicit {c : Char} {k : Combinator} (hk : explicitCombinator? c = some k)
        (hscans : Scans true [] false text (.combinator k :: .compound next :: its))
        (happend : text ++ blanks = c :: ' ' :: rest) : ∃ more,
          ' ' :: text = ' ' :: c :: ' ' :: more ∧ Scans true [] false more (.compound next :: its) := by
      obtain ⟨more, rfl, hmore⟩ := explicit_of_scans hk hscans happend
      exact ⟨more, rfl, hmore⟩
    cases k with
    | descendant => exact ⟨text, rfl, hscans⟩
    | child => exact hexplicit rfl hscans (List.cons.inj happend).2
    | nextSibling => exact hexplicit rfl hscans (List.cons.inj happend).2
    | subsequentSibling => exact hexplicit rfl hscans (List.cons.inj happend).2

theorem subject_ne_nil (h : chain.Legible next) : chain.subject ≠ [] := by
  cases chain with
  | compound parts => exact h.1
  | step left k parts => exact h.2.1

theorem stable_chain_of_scans (hlegible : chain.Legible tail.head?)
    (h : Scans true [] false text (chainItems chain ++ its))
    (happend : text ++ blanks = chain.chars ++ tail) (hblanks : ∀ c ∈ blanks, isBlank c)
    (hcount : tail.count ')' ≤ (itemsChars its).count ')')
    (hnot : ∀ parts ∈ chain.compounds, ∀ alternatives, .not alternatives ∈ parts →
      read (Selector.chars alternatives) = .ok alternatives → Selector.Stable alternatives) :
    chain.Stable ∧ ∃ more, text = chain.chars ++ more ∧
      Scans false chain.subject false more (.compound chain.subject :: its) := by
  induction chain generalizing tail its with
  | compound parts =>
    obtain ⟨hne, hlegible⟩ := hlegible
    exact stable_compound_of_scans hlegible h (fun hnil => absurd hnil hne) happend hblanks hcount
      (hnot parts (List.mem_singleton_self parts))
  | step left k parts ih =>
    have hne := subject_ne_nil hlegible.1
    obtain ⟨hleft, hparts, hlegible⟩ := hlegible
    obtain ⟨hnot, hnot'⟩ := List.forall_mem_append.1 hnot
    rw [chars_step, List.append_assoc, List.append_assoc] at happend
    rw [chainItems, List.append_assoc] at h
    have htail : (k.chars ++ (Compound.chars parts ++ tail)).count ')' ≤
        (itemsChars (stepItems k parts ++ its)).count ')' := by
      rw [List.count_append, count_combinator (.inr rfl), itemsChars_append, itemsChars_stepItems,
        List.count_append, List.count_append]
      omega
    obtain ⟨hstable, behind, rfl, hscans⟩ := ih (by rwa [head?_combinator]) h happend htail hnot
    rw [List.append_assoc, List.append_cancel_left_eq] at happend
    obtain ⟨right, rfl, hright⟩ := step_of_scans hne hscans happend
    rw [List.append_assoc, List.append_cancel_left_eq] at happend
    obtain ⟨hstable', more, rfl, hmore⟩ := stable_compound_of_scans hlegible hright
      (fun hnil => absurd hnil hparts) happend hblanks hcount
      (hnot' parts (List.mem_singleton_self parts))
    refine ⟨⟨hstable, hstable'⟩, more, ?_, hmore⟩
    rw [chars_step, List.append_assoc, List.append_assoc]

theorem trim_append (h : ∀ c ∈ cs.head?, ¬ isBlank c) :
    ∃ blanks, trim cs ++ blanks = cs ∧ ∀ c ∈ blanks, isBlank c := by
  have hleft : trimLeft cs = cs := by
    cases cs with
    | nil => rfl
    | cons c cs => exact List.dropWhile_cons_of_neg (h c rfl)
  refine ⟨(cs.reverse.takeWhile isBlank).reverse, ?_, ?_⟩
  · rw [trim, hleft, trimRight, ← List.reverse_append, List.takeWhile_append_dropWhile,
      List.reverse_reverse]
  · intro c hc
    rw [List.mem_reverse] at hc
    exact List.all_eq_true.1 List.all_takeWhile c hc

theorem head?_chain (h : chain.Legible tail.head?) :
    ∀ c ∈ (chain.chars ++ tail).head?, endsCompound c = false := by
  induction chain generalizing tail with
  | compound parts =>
    cases parts with
    | nil => exact absurd rfl h.1
    | cons part parts =>
      have hpart := h.2.1
      rw [← List.head?_append] at hpart
      rw [chars_compound, chars_cons, List.append_assoc]
      exact fun c hc => (head?_chars hpart c hc).1
  | step left k parts ih =>
    rw [chars_step, List.append_assoc, List.append_assoc]
    exact ih (by rw [head?_combinator]; exact h.1)

theorem stable_unmatchable (text : String) : (Chain.unmatchable text).Stable := by
  refine ⟨trivial, ?_, trivial⟩
  intro hruns
  cases hruns with
  | inl h => exact absurd h.2 nofun
  | inr h => exact absurd h.2 nofun

theorem chars_unmatchable_chain (text : List Char) :
    Chain.chars (.unmatchable (String.ofList text)) = text := by
  rw [Chain.unmatchable, chars_compound, chars_cons, chars_unmatchable, chars_nil, List.append_nil,
    String.toList_ofList]

theorem stable_of_readChain (hlegible : chain.Legible none ∨ chain.IsSpoilt)
    (h : readChain read (trim chain.chars) = .ok chain)
    (hnot : ∀ parts ∈ chain.compounds, ∀ alternatives, .not alternatives ∈ parts →
      read (Selector.chars alternatives) = .ok alternatives → Selector.Stable alternatives) :
    chain.Stable ∧ trim chain.chars = chain.chars := by
  cases hlegible with
  | inl hlegible =>
    cases readChain_cases h with
    | inl hscans =>
      have hlegible : chain.Legible (List.head? []) := hlegible
      have hbegin : ∀ c ∈ chain.chars.head?, ¬ isBlank c := by
        intro c hc
        have hends := head?_chain hlegible c (by rwa [List.append_nil])
        simp only [endsCompound, Bool.or_eq_false_iff] at hends
        simp [hends.1.1]
      obtain ⟨blanks, htrim, hblanks⟩ := trim_append hbegin
      rw [← List.append_nil (chainItems chain)] at hscans
      obtain ⟨hstable, more, hmore, -⟩ := stable_chain_of_scans hlegible hscans
        (by rwa [List.append_nil]) hblanks (Nat.zero_le _) hnot
      -- The text is a part of the printed one and has the printed one as a part.
      have hlength := congrArg List.length (htrim.symm.trans (congrArg (· ++ blanks) hmore))
      simp only [List.length_append] at hlength
      have hnil : more = [] := List.eq_nil_of_length_eq_zero (by omega)
      exact ⟨hstable, by rw [hmore, hnil, List.append_nil]⟩
    | inr hchain =>
      refine ⟨hchain ▸ stable_unmatchable _, ?_⟩
      have hchars := congrArg Chain.chars hchain
      rw [chars_unmatchable_chain] at hchars
      exact hchars.symm
  | inr hspoilt =>
    obtain ⟨text, rfl, htrim, -⟩ := hspoilt
    rw [chars_unmatchable_chain]
    exact ⟨stable_unmatchable _, htrim⟩

/-! Lists of chains. -/

theorem eq_of_ended_eq {texts texts' : List (List Char)}
    (h : List.Forall₂ (fun text text' => text.count ',' = text'.count ',') texts texts')
    (heq : ended texts = ended texts') : texts = texts' := by
  induction h with
  | nil => rfl
  | @cons text text' texts texts' hcount _ ih =>
    rw [ended_cons, ended_cons] at heq
    have htotal := congrArg (List.count ',') heq
    rw [List.count_append, List.count_append, List.count_cons_self, List.count_cons_self] at htotal
    obtain rfl : text = text' := eq_of_count_le heq (by omega) (by omega)
    rw [ih (List.cons.inj (List.append_cancel_left heq)).2]

theorem forall₂_of_count_eq {texts : List (List Char)} {selector : List Chain}
    (h : List.Forall₂ (fun text chain => chain.chars.count ',' ≤ text.count ',')
      ((texts.map trim).filter (!·.isEmpty)) selector)
    (hcount : (ended (selector.map Chain.chars)).count ',' = (ended texts).count ',') :
    List.Forall₂ (fun text chain => trim text ≠ [] ∧ text.count ',' = chain.chars.count ',') texts
      selector := by
  induction texts generalizing selector with
  | nil =>
    cases h
    exact .nil
  | cons text texts ih =>
    rw [ended_cons, List.count_append, List.count_cons_self] at hcount
    by_cases htrim : trim text = []
    · -- A piece that is dropped has a comma that no chain prints.
      rw [List.map_cons, List.filter_cons_of_neg (by simp [htrim])] at h
      have hrest := count_ended_le h
      omega
    · rw [List.map_cons, List.filter_cons_of_pos (by simpa using htrim)] at h
      cases h with
      | @cons _ chain _ chains hchain hchains =>
        have hrest := count_ended_le hchains
        have htext := (trim_sublist text).count_le ','
        rw [List.map_cons, ended_cons, List.count_append, List.count_cons_self] at hcount
        exact .cons ⟨htrim, by omega⟩ (ih hchains (by omega))

theorem splitOuter_of_read {selector : List Chain} (hne : selector ≠ [])
    (h : read (Selector.chars selector) = .ok selector) :
    splitOuter {} (Selector.chars selector) = pieces selector ∧
      ∀ chain ∈ selector, trim chain.chars ≠ [] := by
  cases selector with
  | nil => exact absurd rfl hne
  | cons chain chains =>
    have hchains := (read_eq_ok_iff.1 h).imp fun text chain hread =>
      count_chain_le (.inl rfl) hread fun argument alternatives _ => count_chars_le (.inl rfl)
    have hended : ended (pieces (chain :: chains)) =
        ended (splitOuter {} (Selector.chars (chain :: chains))) := by
      rw [ended_pieces, ended_splitOuter]
    have hcount := count_ended_pieces (.inl rfl) (chain :: chains)
    rw [hended] at hcount
    have htexts := forall₂_of_count_eq hchains hcount.symm
    generalize splitOuter {} (Selector.chars (chain :: chains)) = texts at htexts hended
    cases htexts with
    | @cons text _ texts _ htext htexts =>
      have hpieces : text :: texts = pieces (chain :: chains) := by
        refine eq_of_ended_eq (.cons htext.2 ?_) hended.symm
        rw [List.forall₂_map_right_iff]
        exact htexts.imp fun text chain h => h.2.trans (by simp)
      obtain ⟨rfl, rfl⟩ := List.cons.inj hpieces
      refine ⟨rfl, List.forall_mem_cons.2 ⟨htext.1, ?_⟩⟩
      rw [List.forall₂_map_left_iff, List.forall₂_same] at htexts
      exact fun chain hchain => (htexts chain hchain).1

theorem chainTexts_of_read {selector : List Chain}
    (h : read (Selector.chars selector) = .ok selector) :
    chainTexts (Selector.chars selector) = selector.map fun chain => trim chain.chars := by
  cases selector with
  | nil => rfl
  | cons chain chains =>
    obtain ⟨hsplit, hne⟩ := splitOuter_of_read (List.cons_ne_nil _ _) h
    have htrim : (pieces (chain :: chains)).map trim =
        (chain :: chains).map fun chain => trim chain.chars := by
      rw [pieces, List.map_cons, List.map_cons, List.map_map]
      rfl
    rw [chainTexts, hsplit, htrim, List.filter_eq_self]
    intro text htext
    obtain ⟨chain', hmem, rfl⟩ := List.mem_map.1 htext
    simpa using hne chain' hmem

/-- A legible tree that is read back from its text is stable. -/
theorem stable_of_read {selector : List Chain} (hlegible : Selector.Legible selector)
    (h : read (Selector.chars selector) = .ok selector) : Selector.Stable selector := by
  induction selector using nests_induction with
  | nest selector ih =>
    have htexts := chainTexts_of_read h
    rw [read_eq_ok_iff, htexts, List.forall₂_map_left_iff, List.forall₂_same] at h
    have hchains : ∀ chain ∈ selector, chain.Stable ∧ trim chain.chars = chain.chars := by
      intro chain hchain
      apply stable_of_readChain (legible_iff_forall.1 hlegible chain hchain) (h chain hchain)
      intro parts hparts alternatives hpart hread
      have hnests : Nests selector alternatives := ⟨chain, hchain, parts, hparts, hpart⟩
      exact ih alternatives hnests (hnests.legible hlegible).2 hread
    refine ⟨?_, allStable_iff_forall.2 fun chain hchain => (hchains chain hchain).1⟩
    rw [IsCut, htexts]
    exact List.map_congr_left fun chain hchain => (hchains chain hchain).2

end DomQuery.Selector
