import DomQuery.Proofs.Selector.Stable

/-!
Printed text that comes apart where it was put together is read as the tree it was printed from.
-/
namespace DomQuery
namespace Selector
open Text

variable {first : Bool} {next : Option Char} {c : Char} {cs tail more : List Char} {part : Part}
  {parts before : Compound} {chain : Chain} {its : List Item}

/-! A tag without a name prints nothing, so it can only be the end of a chain that trimming cuts. -/

theorem not_isBlank_of_mem_getLast?_trim (h : c ∈ (trim cs).getLast?) : ¬ isBlank c := by
  have hhead := List.head?_dropWhile_not isBlank (trimLeft cs).reverse
  rw [trim, trimRight, List.getLast?_reverse] at h
  rw [h] at hhead
  simpa using hhead

theorem isPrefix_trimRight (cs : List Char) : trimRight cs <+: cs := by
  have hsuffix := List.dropWhile_suffix isBlank (l := cs.reverse)
  rw [trimRight]
  exact List.reverse_suffix.1 (by rwa [List.reverse_reverse])

theorem not_isBlank_of_mem_head?_trim (h : c ∈ (trim cs).head?) : ¬ isBlank c := by
  have hhead := List.head?_dropWhile_not isBlank cs
  obtain ⟨more, hmore⟩ := isPrefix_trimRight (trimLeft cs)
  obtain ⟨ds, hds⟩ := List.head?_eq_some_iff.1 h
  rw [show cs.dropWhile isBlank = trimLeft cs from rfl, ← hmore,
    show trimRight (trimLeft cs) = c :: ds from hds] at hhead
  simpa using hhead

theorem trim_trim (cs : List Char) : trim (trim cs) = trim cs :=
  trim_eq_self (fun _ => not_isBlank_of_mem_head?_trim) fun _ => not_isBlank_of_mem_getLast?_trim

theorem chars_nil : Compound.chars [] = [] := rfl

theorem chars_cons (part : Part) (parts : Compound) :
    Compound.chars (part :: parts) = part.chars ++ Compound.chars parts := rfl

theorem chars_compound (parts : Compound) : Chain.chars (.compound parts) = Compound.chars parts :=
  rfl

theorem chars_step (left : Chain) (k : Combinator) (parts : Compound) :
    Chain.chars (.step left k parts) = left.chars ++ k.chars ++ Compound.chars parts := rfl

theorem chars_cons_cons (chain next : Chain) (more : List Chain) :
    Selector.chars (chain :: next :: more) =
      chain.chars ++ ([','] ++ ([' '] ++ Selector.chars (next :: more))) := rfl

theorem chars_singleton (chain : Chain) : Selector.chars [chain] = chain.chars :=
  List.append_nil chain.chars

theorem chars_tag (name : String) : Part.chars (.tag name) = escapeTag name.toList := rfl

theorem chars_id (name : String) : Part.chars (.id name) = '#' :: escapeName name.toList := rfl

theorem chars_className (name : String) :
    Part.chars (.className name) = '.' :: escapeName name.toList := rfl

theorem chars_test (test : AttributeTest) :
    Part.chars (.attribute test) = '[' :: testBody test ++ [']'] := rfl

theorem chars_unmatchable (text : String) : Part.chars (.unmatchable text) = text.toList := rfl

theorem tag_not_mem {name : String} (h : Compound.Legible false next parts) :
    .tag name ∉ parts := by
  induction parts with
  | nil => exact List.not_mem_nil
  | cons part parts ih =>
    obtain ⟨hpart, hparts⟩ := h
    intro hmem
    cases List.mem_cons.1 hmem with
    | inl heq =>
      subst heq
      exact absurd hpart.1 nofun
    | inr hmem => exact ih hparts hmem

theorem chars_eq_nil_of_mem (h : Compound.Legible first next parts) (hmem : .tag "" ∈ parts) :
    Compound.chars parts = [] ∧ next = none := by
  cases parts with
  | nil => exact absurd hmem List.not_mem_nil
  | cons part parts =>
    obtain ⟨hpart, hparts⟩ := h
    cases List.mem_cons.1 hmem with
    | inl heq =>
      subst heq
      have hnone := hpart.2.2 rfl
      rw [Option.or_eq_none_iff, List.head?_eq_none_iff] at hnone
      exact ⟨by rw [chars_cons, hnone.1]; rfl, hnone.2⟩
    | inr hmem => exact absurd hmem (tag_not_mem hparts)

def IsTrimmed (chain : Chain) : Prop := chain.chars ≠ [] ∧ trim chain.chars = chain.chars

theorem tag_empty_not_mem (h : Chain.Legible next chain) (htrimmed : next = none → IsTrimmed chain) :
    ∀ parts ∈ chain.compounds, .tag "" ∉ parts := by
  induction chain generalizing next with
  | compound parts =>
    intro parts' hparts' hmem
    obtain rfl := List.mem_singleton.1 hparts'
    obtain ⟨hchars, rfl⟩ := chars_eq_nil_of_mem h.2 hmem
    exact (htrimmed rfl).1 hchars
  | step left k parts ih =>
    obtain ⟨hleft, -, hparts⟩ := h
    intro parts' hparts' hmem
    cases List.mem_append.1 hparts' with
    | inl hparts' => exact ih hleft nofun parts' hparts' hmem
    | inr hparts' =>
      obtain rfl := List.mem_singleton.1 hparts'
      obtain ⟨hchars, rfl⟩ := chars_eq_nil_of_mem hparts hmem
      -- The text ends in the blank behind the combinator.
      have hlast : (Chain.chars (.step left k parts')).getLast? = some ' ' := by
        rw [chars_step, hchars, List.append_nil, List.getLast?_append]
        cases k <;> rfl
      rw [← (htrimmed rfl).2] at hlast
      exact not_isBlank_of_mem_getLast?_trim hlast (by decide)

/-! Compounds and chains. -/

theorem not_runsInto_of_isBlank {text : List Char} (h : ∀ c ∈ next, isBlank c) :
    ¬ RunsInto text next := by
  rintro (⟨-, rfl⟩ | ⟨-, rfl⟩)
  · exact absurd (h '(' rfl) (by decide)
  · exact absurd (h ':' rfl) (by decide)

theorem scans_compound (hlegible : Compound.Legible first tail.head? parts)
    (hstable : Compound.Stable parts) (htag : .tag "" ∉ parts)
    (hrereads : ∀ part ∈ parts, Rereads part) (htail : ∀ c ∈ tail.head?, isBlank c)
    (hfirst : parts = [] → first = false)
    (h : Scans false (before ++ parts) false tail its) :
    Scans first before false (Compound.chars parts ++ tail) its := by
  induction parts generalizing first before with
  | nil =>
    rw [hfirst rfl]
    rwa [List.append_nil] at h
  | cons part parts ih =>
    obtain ⟨hpart, hparts⟩ := hlegible
    obtain ⟨-, hruns, hstable⟩ := hstable
    obtain ⟨hne, htag⟩ := not_or.1 (mt List.mem_cons.2 htag)
    have hnext : (Compound.chars parts ++ tail).head? = (Compound.chars parts).head?.or tail.head? :=
      List.head?_append
    have hruns' : ¬ RunsInto part.chars (Compound.chars parts ++ tail).head? := by
      cases hchars : Compound.chars parts with
      | nil => exact not_runsInto_of_isBlank htail
      | cons c cs => rwa [hchars] at hruns
    rw [← hnext] at hpart
    obtain ⟨l, htakes, hyields⟩ := exists_takes_part hpart (Ne.symm hne) hruns'
      (hrereads part List.mem_cons_self)
    rw [chars_cons, List.append_assoc]
    refine .part htakes hyields (ih hparts hstable htag ?_ (fun _ => rfl) ?_)
    · exact fun part hpart => hrereads part (List.mem_cons_of_mem _ hpart)
    · rwa [List.append_assoc]

theorem scans_explicit {c : Char} {k : Combinator} (hk : explicitCombinator? c = some k)
    (hne : parts ≠ []) (h : Scans true [] false more its) :
    Scans false parts false (' ' :: c :: ' ' :: more) (.compound parts :: .combinator k :: its) := by
  have hend : endCompound parts false = .ok [.compound parts] :=
    endCompound_eq_ok_iff.2 (.inl ⟨rfl, hne⟩)
  have hnone : endCompound [] false = .ok [] := rfl
  have hblank (fresh : Bool) (more : List Char) : Takes fresh [' '] .blank more :=
    .blank (by decide)
  have hlast := Scans.blank (hblank true more) hnone h
  have htakes : Takes true [c] (.combinator k) ([' '] ++ more) := .combinator hk
  have hcombinator := Scans.combinator htakes hnone hlast
  exact Scans.blank (hblank false _) hend hcombinator

theorem scans_step {k : Combinator} {next : Compound} (hne : parts ≠ [])
    (h : Scans true [] false more (.compound next :: its)) :
    Scans false parts false (k.chars ++ more) (.compound parts :: (stepItems k next ++ its)) := by
  cases k with
  | descendant =>
    have hend : endCompound parts false = .ok [.compound parts] :=
      endCompound_eq_ok_iff.2 (.inl ⟨rfl, hne⟩)
    have hblank : Takes false [' '] .blank more := .blank (by decide)
    exact Scans.blank hblank hend h
  | child => exact scans_explicit rfl hne h
  | nextSibling => exact scans_explicit rfl hne h
  | subsequentSibling => exact scans_explicit rfl hne h

theorem head?_combinator (k : Combinator) (more : List Char) :
    (k.chars ++ more).head? = some ' ' := by
  cases k <;> rfl

theorem scans_chain (hlegible : chain.Legible tail.head?) (hstable : chain.Stable)
    (htag : ∀ parts ∈ chain.compounds, .tag "" ∉ parts)
    (hrereads : ∀ parts ∈ chain.compounds, ∀ part ∈ parts, Rereads part)
    (htail : ∀ c ∈ tail.head?, isBlank c)
    (h : Scans false chain.subject false tail (.compound chain.subject :: its)) :
    Scans true [] false (chain.chars ++ tail) (chainItems chain ++ its) := by
  induction chain generalizing tail its with
  | compound parts =>
    obtain ⟨hne, hlegible⟩ := hlegible
    have hmem : parts ∈ Chain.compounds (.compound parts) := List.mem_singleton_self _
    exact scans_compound hlegible hstable (htag parts hmem) (hrereads parts hmem) htail
      (fun hnil => absurd hnil hne) h
  | step left k parts ih =>
    obtain ⟨hleft, hne, hlegible⟩ := hlegible
    obtain ⟨hstable, hstable'⟩ := hstable
    have hmem : parts ∈ Chain.compounds (.step left k parts) :=
      List.mem_append_right _ (List.mem_singleton_self _)
    have hmem' {parts'} (h : parts' ∈ left.compounds) :
        parts' ∈ Chain.compounds (.step left k parts) := List.mem_append_left _ h
    have hscan : Scans true [] false (Compound.chars parts ++ tail) (.compound parts :: its) :=
      scans_compound hlegible hstable' (htag parts hmem) (hrereads parts hmem) htail
        (fun hnil => absurd hnil hne) h
    have hhead := head?_combinator k (Compound.chars parts ++ tail)
    rw [chars_step, List.append_assoc, List.append_assoc, chainItems, List.append_assoc]
    refine ih ?_ hstable (fun parts' h => htag parts' (hmem' h))
      (fun parts' h => hrereads parts' (hmem' h)) ?_ (scans_step ?_ hscan)
    · rwa [hhead]
    · intro c hc
      rw [hhead] at hc
      obtain rfl := Option.some.inj hc
      decide
    · cases left with
      | compound parts => exact hleft.1
      | step left k parts => exact hleft.2.1

theorem readChain_chars (hlegible : chain.Legible none) (hstable : chain.Stable)
    (htrimmed : IsTrimmed chain)
    (hrereads : ∀ parts ∈ chain.compounds, ∀ part ∈ parts, Rereads part) :
    readChain read chain.chars = .ok chain := by
  have hne : chain.subject ≠ [] := by
    cases chain with
    | compound parts => exact hlegible.1
    | step left k parts => exact hlegible.2.1
  have hend : Scans false chain.subject false [] [.compound chain.subject] :=
    .done (endCompound_eq_ok_iff.2 (.inl ⟨rfl, hne⟩))
  have hscan : Scans true [] false (chain.chars ++ []) (chainItems chain ++ []) :=
    scans_chain hlegible hstable (tag_empty_not_mem hlegible fun _ => htrimmed) hrereads nofun hend
  rw [List.append_nil, List.append_nil] at hscan
  exact readChain_of_scans hscan

theorem readChain_chars_of_isSpoilt (h : chain.IsSpoilt) :
    readChain read chain.chars = .ok chain := by
  obtain ⟨text, rfl, -, -, hread⟩ := h
  have hchars : Chain.chars (.unmatchable (String.ofList text)) = text := by
    rw [Chain.unmatchable, chars_compound, chars_cons]
    exact (List.append_nil _).trans String.toList_ofList
  rwa [hchars]

/-! Whole trees: the lists in `:not` are read first. -/

theorem read_of_isCut {selector : List Chain} (hcut : IsCut selector)
    (h : ∀ chain ∈ selector, readChain read chain.chars = .ok chain) :
    read (Selector.chars selector) = .ok selector := by
  rw [read_eq_ok_iff, hcut, List.forall₂_map_left_iff, List.forall₂_same]
  exact h

theorem isTrimmed_of_isCut {selector : List Chain} (hcut : IsCut selector) :
    ∀ chain ∈ selector, IsTrimmed chain := by
  intro chain hchain
  have hmem : chain.chars ∈ chainTexts (Selector.chars selector) :=
    hcut ▸ List.mem_map_of_mem hchain
  obtain ⟨hmem, hne⟩ := List.mem_filter.1 hmem
  obtain ⟨piece, -, hpiece⟩ := List.mem_map.1 hmem
  exact ⟨by simpa using hne, by rw [← hpiece, trim_trim]⟩

theorem read_chars {selector : List Chain} (hlegible : Selector.Legible selector)
    (hstable : Selector.Stable selector) : read (Selector.chars selector) = .ok selector := by
  induction selector using nests_induction with
  | nest selector ih =>
    have hrereads : ∀ chain ∈ selector, ∀ parts ∈ chain.compounds, ∀ part ∈ parts,
        Rereads part := by
      rintro chain hchain parts hparts _ hpart alternatives rfl
      have hnests : Nests selector alternatives := ⟨chain, hchain, parts, hparts, hpart⟩
      obtain ⟨henclosed, hstable⟩ := hnests.stable hstable
      exact ⟨henclosed, ih alternatives hnests (hnests.legible hlegible).2 hstable⟩
    obtain ⟨hcut, hstable⟩ := hstable
    refine read_of_isCut hcut fun chain hchain => ?_
    cases legible_iff_forall.1 hlegible chain hchain with
    | inl hlegible =>
      exact readChain_chars hlegible (allStable_iff_forall.1 hstable chain hchain)
        (isTrimmed_of_isCut hcut chain hchain) (hrereads chain hchain)
    | inr hspoilt => exact readChain_chars_of_isSpoilt hspoilt

end Selector
end DomQuery
