import DomQuery.Proofs.Selector.Rereading

/-!
The canonical text of a well-shaped tree is read as the tree itself, however deep lists are nested in
`:not` and whatever names and values hold.
-/
namespace DomQuery
namespace Selector
open Text

/-- A blank at the end of a name would be trimmed away at the end of the chain. -/
def IsName (name : String) : Prop := name ≠ "" ∧ ∀ c ∈ name.toList.getLast?, ¬ isBlank c

end Selector

open Selector

mutual

/-- Shapes that can be written without loss; `first` says that the part begins its compound. -/
def Part.WellShaped (first : Bool) : Part → Prop
  | .tag name => first = true ∧ IsName name
  | .id name => IsName name
  | .className name => IsName name
  | .attribute test => test.Legible
  | .not alternatives => alternatives ≠ [] ∧ Selector.WellShaped alternatives
  | .unmatchable _ => False
  | _ => True

def Compound.WellShaped (first : Bool) : List Part → Prop
  | [] => True
  | part :: parts => part.WellShaped first ∧ Compound.WellShaped false parts

def Chain.WellShaped : Chain → Prop
  | .compound parts => parts ≠ [] ∧ Compound.WellShaped true parts
  | .step left _ parts => left.WellShaped ∧ parts ≠ [] ∧ Compound.WellShaped true parts

def Selector.WellShaped : List Chain → Prop
  | [] => True
  | chain :: chains => chain.WellShaped ∧ Selector.WellShaped chains

end

instance (name : String) : Decidable (IsName name) :=
  @instDecidableAnd _ _ _ (Option.decidableForallMem _)

instance (test : AttributeTest) : Decidable test.Legible :=
  @instDecidableAnd _ _ _ (@instDecidableAnd _ _ (List.decidableBAll _ _) _)

mutual

def Part.decideWellShaped (first : Bool) : (part : Part) → Decidable (part.WellShaped first)
  | .tag name => inferInstanceAs (Decidable (first = true ∧ IsName name))
  | .id name => inferInstanceAs (Decidable (IsName name))
  | .className name => inferInstanceAs (Decidable (IsName name))
  | .attribute test => inferInstanceAs (Decidable test.Legible)
  | .not alternatives =>
    have := Selector.decideWellShaped alternatives
    inferInstanceAs (Decidable (alternatives ≠ [] ∧ Selector.WellShaped alternatives))
  | .unmatchable _ => inferInstanceAs (Decidable False)
  | .universal => inferInstanceAs (Decidable True)
  | .position _ => inferInstanceAs (Decidable True)
  | .empty => inferInstanceAs (Decidable True)
  | .root => inferInstanceAs (Decidable True)
  | .contains _ => inferInstanceAs (Decidable True)

def Compound.decideWellShaped (first : Bool) :
    (parts : List Part) → Decidable (Compound.WellShaped first parts)
  | [] => inferInstanceAs (Decidable True)
  | part :: parts =>
    have := Part.decideWellShaped first part
    have := Compound.decideWellShaped false parts
    inferInstanceAs (Decidable (part.WellShaped first ∧ Compound.WellShaped false parts))

def Chain.decideWellShaped : (chain : Chain) → Decidable chain.WellShaped
  | .compound parts =>
    have := Compound.decideWellShaped true parts
    inferInstanceAs (Decidable (parts ≠ [] ∧ Compound.WellShaped true parts))
  | .step left _ parts =>
    have := Compound.decideWellShaped true parts
    have := Chain.decideWellShaped left
    inferInstanceAs (Decidable (left.WellShaped ∧ parts ≠ [] ∧ Compound.WellShaped true parts))

def Selector.decideWellShaped : (chains : List Chain) → Decidable (Selector.WellShaped chains)
  | [] => inferInstanceAs (Decidable True)
  | chain :: chains =>
    have := Chain.decideWellShaped chain
    have := Selector.decideWellShaped chains
    inferInstanceAs (Decidable (chain.WellShaped ∧ Selector.WellShaped chains))

end

instance (selector : List Chain) : Decidable (Selector.WellShaped selector) :=
  Selector.decideWellShaped selector

namespace Selector
open Text

variable {first nested : Bool} {next : Option Char} {cs ds argument : List Char} {word : String}
  {part : Part} {parts : Compound} {chain : Chain}

/-! What holds of a tree holds of the lists in it. -/

theorem exists_wellShaped_of_mem (h : Compound.WellShaped first parts) (hmem : part ∈ parts) :
    ∃ first, part.WellShaped first := by
  induction parts generalizing first with
  | nil => exact absurd hmem List.not_mem_nil
  | cons part' parts ih =>
    obtain ⟨hpart, hparts⟩ := h
    cases List.mem_cons.1 hmem with
    | inl heq =>
      subst heq
      exact ⟨_, hpart⟩
    | inr hmem => exact ih hparts hmem

theorem wellShaped_of_mem_compounds (h : chain.WellShaped) (hmem : parts ∈ chain.compounds) :
    Compound.WellShaped true parts := by
  induction chain with
  | compound parts' =>
    obtain rfl := List.mem_singleton.1 hmem
    exact h.2
  | step left k parts' ih =>
    obtain ⟨hleft, -, hparts⟩ := h
    cases List.mem_append.1 hmem with
    | inl hmem => exact ih hleft hmem
    | inr hmem =>
      obtain rfl := List.mem_singleton.1 hmem
      exact hparts

theorem wellShaped_iff_forall {selector : List Chain} :
    Selector.WellShaped selector ↔ ∀ chain ∈ selector, chain.WellShaped := by
  induction selector with
  | nil => exact ⟨fun _ => List.forall_mem_nil _, fun _ => trivial⟩
  | cons chain chains ih => rw [List.forall_mem_cons, ← ih, Selector.WellShaped]

theorem Nests.wellShaped {selector alternatives : List Chain} (h : Nests selector alternatives)
    (hshape : Selector.WellShaped selector) : Selector.WellShaped alternatives := by
  obtain ⟨chain, hchain, parts, hparts, hpart⟩ := h
  have hchain := wellShaped_iff_forall.1 hshape chain hchain
  obtain ⟨first, hshape⟩ :=
    exists_wellShaped_of_mem (wellShaped_of_mem_compounds hchain hparts) hpart
  exact hshape.2

/-! The printed text of a part is balanced, and blanks are nowhere at its ends. -/

def HasEdges (cs : List Char) : Prop :=
  cs ≠ [] ∧ (∀ c ∈ cs.head?, ¬ isBlank c) ∧ ∀ c ∈ cs.getLast?, ¬ isBlank c

theorem HasEdges.append (h : HasEdges cs) (between : List Char) (h' : HasEdges ds) :
    HasEdges (cs ++ (between ++ ds)) := by
  obtain ⟨hne, hhead, -⟩ := h
  obtain ⟨hne', -, hlast⟩ := h'
  refine ⟨List.append_ne_nil_of_left_ne_nil hne _, ?_, ?_⟩
  · rwa [List.head?_append_of_ne_nil _ hne]
  · rwa [List.getLast?_append_of_ne_nil _ (List.append_ne_nil_of_right_ne_nil between hne'),
      List.getLast?_append_of_ne_nil _ hne']

theorem HasEdges.isTrimmed (h : HasEdges chain.chars) : IsTrimmed chain :=
  ⟨h.1, trim_eq_self h.2.1 h.2.2⟩

theorem hasEdges_cons {c : Char} (hc : ¬ isBlank c) (h : ∀ d ∈ cs.getLast?, ¬ isBlank d) :
    HasEdges (c :: cs) := by
  have hedge : ∀ d ∈ [c].getLast?, ¬ isBlank d := by
    intro d hd
    obtain rfl := Option.some.inj hd
    exact hc
  exact ⟨List.cons_ne_nil _ _, hedge, forall_getLast?_append hedge h⟩

theorem not_isBlank_of_mem_getLast?_concat {c d : Char} (hd : ¬ isBlank d)
    (h : c ∈ (cs ++ [d]).getLast?) : ¬ isBlank c := by
  rw [List.getLast?_concat] at h
  obtain rfl := Option.some.inj h
  exact hd

theorem getLast?_escapeTag (name : List Char) : (escapeTag name).getLast? = name.getLast? := by
  cases name with
  | nil => rfl
  | cons c name =>
    have hlast : (if c.isDigit then ['\\', c] else escapeChar c).getLast? = some c := by
      split
      · rfl
      · exact getLast?_escapeChar c
    rw [escapeTag, List.getLast?_append, hlast, getLast?_escapeName, List.getLast?_cons]
    cases name.getLast? <;> rfl

theorem hasEdges_escapeTag {name : String} (h : IsName name) :
    HasEdges (escapeTag name.toList) := by
  have hne : name.toList ≠ [] := by simpa using h.1
  obtain ⟨c, cs, hcs, -⟩ := exists_startsTag_escapeTag hne
  refine ⟨by rw [hcs]; exact List.cons_ne_nil c cs, ?_, ?_⟩
  · exact fun d hd => not_isBlank_of_continuesName ((escaped_escapeTag _).continuesName d hd)
  · rw [getLast?_escapeTag]
    exact h.2

theorem hasEdges_part (h : part.WellShaped first) : HasEdges part.chars := by
  have hname {name : String} (hname : IsName name) :
      ∀ c ∈ (escapeName name.toList).getLast?, ¬ isBlank c := by
    rw [getLast?_escapeName]
    exact hname.2
  cases part using form_cases with
  | universal => exact hasEdges_cons (by decide) nofun
  | tag name => exact hasEdges_escapeTag h.2
  | id name => exact hasEdges_cons (by decide) (hname h)
  | className name => exact hasEdges_cons (by decide) (hname h)
  | test test =>
    exact hasEdges_cons (by decide) fun c => not_isBlank_of_mem_getLast?_concat (by decide)
  | keyword part hkeyword =>
    obtain ⟨word, hword, hchars, -⟩ := hkeyword.exists_word
    rw [hchars, pseudoText_none]
    refine hasEdges_cons (by decide) fun c hc => ?_
    exact not_isBlank_of_isNameChar (hword.2 c (List.mem_of_getLast? hc)).1
  | call part word argument hcall =>
    rw [chars_of_call? hcall, pseudoText_some]
    refine hasEdges_cons (by decide) (forall_getLast?_append ?_ ?_)
    · exact fun c hc => not_isBlank_of_isNameChar
        ((isWord_of_call? hcall).2 c (List.mem_of_getLast? hc)).1
    · exact fun c => not_isBlank_of_mem_getLast?_concat (by decide)
  | unmatchable text => exact absurd h not_false

theorem hasEdges_compound (h : Compound.WellShaped first parts) (hne : parts ≠ []) :
    HasEdges (Compound.chars parts) := by
  induction parts generalizing first with
  | nil => exact absurd rfl hne
  | cons part parts ih =>
    obtain ⟨hpart, hparts⟩ := h
    cases parts with
    | nil =>
      rw [chars_cons]
      exact (List.append_nil part.chars).symm ▸ hasEdges_part hpart
    | cons part' parts => exact (hasEdges_part hpart).append [] (ih hparts (List.cons_ne_nil _ _))

theorem hasEdges_chain (h : chain.WellShaped) : HasEdges chain.chars := by
  induction chain with
  | compound parts => exact hasEdges_compound h.2 h.1
  | step left k parts ih =>
    obtain ⟨hleft, hne, hparts⟩ := h
    rw [chars_step, List.append_assoc]
    exact (ih hleft).append k.chars (hasEdges_compound hparts hne)

theorem balanced_call (hword : IsWord word) (h : Balanced true argument) :
    Balanced nested (pseudoText false word.toList (some argument)) := by
  have hname : Escaped IsPlain (':' :: word.toList) :=
    .plain (by decide) (by decide) hword.escaped.isPlain
  exact (Balanced.plain hname).append (.parenthesised h)

theorem balanced_part (h : part.WellShaped first)
    (hnot : ∀ alternatives, part = .not alternatives → Balanced true (Selector.chars alternatives)) :
    Balanced nested part.chars := by
  have hsigil {c : Char} (hc : IsPlain c) (hne : c ≠ '\\') (name : List Char) :
      Balanced nested (c :: escapeName name) := .plain (.plain hc hne (escaped_escapeName name).isPlain)
  cases part using form_cases with
  | universal => exact .plain (.plain (by decide) (by decide) .nil)
  | tag name => exact .plain (escaped_escapeTag name.toList).isPlain
  | id name => exact hsigil (by decide) (by decide) name.toList
  | className name => exact hsigil (by decide) (by decide) name.toList
  | test test => exact balanced_test test
  | keyword part hkeyword =>
    obtain ⟨word, hword, hchars, -⟩ := hkeyword.exists_word
    rw [hchars, pseudoText_none]
    exact .plain (.plain (by decide) (by decide) hword.escaped.isPlain)
  | call part word argument hcall =>
    rw [chars_of_call? hcall]
    refine balanced_call (isWord_of_call? hcall) ?_
    by_cases hpart : ∃ alternatives, part = .not alternatives
    · obtain ⟨alternatives, rfl⟩ := hpart
      obtain ⟨-, rfl⟩ := Prod.mk.inj (Option.some.inj hcall)
      exact hnot alternatives rfl
    · exact balanced_of_call? hcall fun alternatives h => hpart ⟨alternatives, h⟩
  | unmatchable text => exact absurd h not_false

theorem balanced_compound (h : Compound.WellShaped first parts)
    (hnot : ∀ alternatives, .not alternatives ∈ parts → Balanced true (Selector.chars alternatives)) :
    Balanced nested (Compound.chars parts) := by
  induction parts generalizing first with
  | nil => exact .plain .nil
  | cons part parts ih =>
    obtain ⟨hpart, hparts⟩ := h
    rw [chars_cons]
    refine (balanced_part hpart ?_).append (ih hparts ?_)
    · rintro alternatives rfl
      exact hnot alternatives List.mem_cons_self
    · exact fun alternatives hmem => hnot alternatives (List.mem_cons_of_mem _ hmem)

theorem balanced_chain (h : chain.WellShaped)
    (hnot : ∀ parts ∈ chain.compounds, ∀ alternatives, .not alternatives ∈ parts →
      Balanced true (Selector.chars alternatives)) : Balanced nested chain.chars := by
  induction chain with
  | compound parts => exact balanced_compound h.2 (hnot parts (List.mem_singleton_self parts))
  | step left k parts ih =>
    obtain ⟨hleft, -, hparts⟩ := h
    obtain ⟨hnot, hnot'⟩ := List.forall_mem_append.1 hnot
    have hk : Balanced nested k.chars := by
      refine .plain (escaped_of_forall (forall_of_all ?_))
      cases k <;> decide
    exact ((ih hleft hnot).append hk).append (balanced_compound hparts (hnot' parts (List.mem_singleton_self parts)))

theorem balanced_chars {selector : List Chain}
    (h : ∀ chain ∈ selector, Balanced true chain.chars) : Balanced true (Selector.chars selector) := by
  induction selector with
  | nil => exact .plain .nil
  | cons chain chains ih =>
    obtain ⟨hchain, hchains⟩ := List.forall_mem_cons.1 h
    cases chains with
    | nil => rwa [chars_singleton]
    | cons next more =>
      have hblank : Balanced true [' '] := .plain (.plain (by decide) (by decide) .nil)
      rw [chars_cons_cons]
      exact hchain.append (Balanced.comma.append (hblank.append (ih hchains)))

/-! The outer commas of a printed list are those between its chains. -/

theorem splitOuter_chars (chain : Chain) (chains : List Chain)
    (h : ∀ chain' ∈ chain :: chains, Balanced false chain'.chars) :
    splitOuter {} (Selector.chars (chain :: chains)) =
      chain.chars :: chains.map (' ' :: ·.chars) := by
  have hopen : Nesting.IsOpen {} := ⟨rfl, nofun⟩
  induction chains generalizing chain with
  | nil =>
    have hleads := (h chain List.mem_cons_self).leads hopen nofun
    have hsplit := hleads []
    rw [List.append_nil] at hsplit
    rw [chars_singleton, hsplit]
    simp [splitOuter, addToFirst]
  | cons next more ih =>
    obtain ⟨hchain, hmore⟩ := List.forall_mem_cons.1 h
    have hblank : splitOuter {} (' ' :: Selector.chars (next :: more)) =
        addToFirst [' '] (splitOuter {} (Selector.chars (next :: more))) :=
      splitOuter_cons (by decide)
    have hcomma : splitOuter {} (',' :: ' ' :: Selector.chars (next :: more)) =
        [] :: splitOuter {} (' ' :: Selector.chars (next :: more)) :=
      splitOuter_cons (by decide)
    rw [chars_cons_cons, hchain.leads hopen nofun]
    simp only [List.singleton_append]
    rw [hcomma, hblank, ih next hmore]
    simp [addToFirst]

theorem isCut_of_balanced {selector : List Chain}
    (h : ∀ chain ∈ selector, Balanced false chain.chars)
    (htrimmed : ∀ chain ∈ selector, IsTrimmed chain) : IsCut selector := by
  cases selector with
  | nil => rfl
  | cons chain chains =>
    have htrim : (chain.chars :: chains.map (' ' :: ·.chars)).map trim =
        (chain :: chains).map Chain.chars := by
      obtain ⟨hchain, hchains⟩ := List.forall_mem_cons.1 htrimmed
      rw [List.map_cons, List.map_cons, hchain.2, List.map_map]
      exact congrArg _ (List.map_congr_left fun chain' hmem => (hchains chain' hmem).2)
    rw [IsCut, chainTexts, splitOuter_chars chain chains h, htrim, List.filter_eq_self]
    intro piece hpiece
    obtain ⟨chain', hmem, rfl⟩ := List.mem_map.1 hpiece
    simpa using (htrimmed chain' hmem).1

/-! No part is continued by the part behind it. -/

theorem head?_part (h : part.WellShaped false) :
    ∀ c ∈ part.chars.head?, c ∈ ['*', '#', '.', '[', ':'] := by
  intro c hc
  cases part using form_cases with
  | tag name => exact absurd h.1 nofun
  | unmatchable text => exact absurd h not_false
  | keyword part hkeyword =>
    obtain ⟨word, -, hchars, -⟩ := hkeyword.exists_word
    rw [hchars] at hc
    obtain rfl := Option.some.inj hc
    decide
  | call part word argument hcall =>
    rw [chars_of_call? hcall] at hc
    obtain rfl := Option.some.inj hc
    decide
  | _ =>
    obtain rfl := Option.some.inj hc
    decide

theorem chars_ne_colon (h : part.WellShaped first) : part.chars ≠ [':'] := by
  cases part using form_cases with
  | tag name =>
    intro hchars
    have hcontinues := (escaped_escapeTag name.toList).continuesName ':' (by
      rw [show escapeTag name.toList = [':'] from hchars]
      rfl)
    exact absurd hcontinues (by decide)
  | unmatchable text => exact absurd h not_false
  | keyword part hkeyword =>
    obtain ⟨word, hword, hchars, -⟩ := hkeyword.exists_word
    rw [hchars, pseudoText_none]
    simpa using hword.1
  | call part word argument hcall =>
    rw [chars_of_call? hcall, pseudoText_some]
    simp
  | universal => decide
  | _ => exact fun hchars => absurd (List.cons.inj hchars).1 (by decide)

def IsNext (next : Option Char) : Prop := ∀ c ∈ next, c ∈ [' ', '*', '#', '.', '[', ':']

theorem IsNext.endsName (h : IsNext next) : EndsName next := by
  have hall : ∀ c ∈ [' ', '*', '#', '.', '[', ':'], ¬ continuesName c := forall_of_all (by decide)
  exact fun c hc => hall c (h c hc)

theorem isNext_compound (h : Compound.WellShaped false parts) (hnext : IsNext next) :
    IsNext ((Compound.chars parts).head?.or next) := by
  cases parts with
  | nil => exact hnext
  | cons part parts =>
    intro c hc
    rw [chars_cons, List.head?_append_of_ne_nil _ (hasEdges_part h.1).1] at hc
    cases hhead : part.chars.head? with
    | none => exact absurd (List.head?_eq_none_iff.1 hhead) (hasEdges_part h.1).1
    | some d =>
      rw [hhead] at hc
      obtain rfl := Option.some.inj hc
      exact List.mem_cons_of_mem _ (head?_part h.1 d hhead)

theorem legible_part (h : part.WellShaped first) (hnext : IsNext next)
    (hnot : ∀ alternatives, part = .not alternatives → Selector.Legible alternatives) :
    part.Legible first next := by
  cases part using form_cases with
  | universal => trivial
  | tag name => exact ⟨h.1, hnext.endsName, fun hempty => absurd hempty h.2.1⟩
  | id name => exact ⟨h.1, hnext.endsName⟩
  | className name => exact ⟨h.1, hnext.endsName⟩
  | test test => exact h
  | keyword part hkeyword => exact (legible_keyword_iff hkeyword).2 hnext.endsName
  | call part word argument hcall =>
    match part, hcall with
    | .position (.nth _ _), _ => exact fun hkeyword => absurd hkeyword not_false
    | .position (.nthLast _ _), _ => exact fun hkeyword => absurd hkeyword not_false
    | .contains _, _ => trivial
    | .not alternatives, _ => exact ⟨h.1, hnot alternatives rfl⟩
  | unmatchable text => exact absurd h not_false

theorem legible_compound (h : Compound.WellShaped first parts) (hnext : IsNext next)
    (hnot : ∀ alternatives, .not alternatives ∈ parts → Selector.Legible alternatives) :
    Compound.Legible first next parts := by
  induction parts generalizing first with
  | nil => trivial
  | cons part parts ih =>
    obtain ⟨hpart, hparts⟩ := h
    refine ⟨legible_part hpart (isNext_compound hparts hnext) ?_, ih hparts ?_⟩
    · rintro alternatives rfl
      exact hnot alternatives List.mem_cons_self
    · exact fun alternatives hmem => hnot alternatives (List.mem_cons_of_mem _ hmem)

theorem legible_chain (h : chain.WellShaped) (hnext : IsNext next)
    (hnot : ∀ parts ∈ chain.compounds, ∀ alternatives, .not alternatives ∈ parts →
      Selector.Legible alternatives) : chain.Legible next := by
  induction chain generalizing next with
  | compound parts =>
    exact ⟨h.1, legible_compound h.2 hnext (hnot parts (List.mem_singleton_self parts))⟩
  | step left k parts ih =>
    obtain ⟨hleft, hne, hparts⟩ := h
    obtain ⟨hnot, hnot'⟩ := List.forall_mem_append.1 hnot
    have hblank : IsNext (some ' ') := by
      intro c hc
      obtain rfl := Option.some.inj hc
      decide
    exact ⟨ih hleft hblank hnot, hne,
      legible_compound hparts hnext (hnot' parts (List.mem_singleton_self parts))⟩

theorem stable_compound (h : Compound.WellShaped first parts)
    (hnot : ∀ part ∈ parts, part.Stable) : Compound.Stable parts := by
  induction parts generalizing first with
  | nil => trivial
  | cons part parts ih =>
    obtain ⟨hpart, hparts⟩ := h
    obtain ⟨hstable, hnot⟩ := List.forall_mem_cons.1 hnot
    refine ⟨hstable, ?_, ih hparts hnot⟩
    have hnext : IsNext ((Compound.chars parts).head?.or none) := isNext_compound hparts nofun
    rw [Option.or_none] at hnext
    rintro (⟨-, hparenthesis⟩ | ⟨hcolon, -⟩)
    · exact absurd (hnext '(' hparenthesis) (by decide)
    · exact chars_ne_colon hpart hcolon

theorem stable_chain (h : chain.WellShaped)
    (hnot : ∀ parts ∈ chain.compounds, ∀ part ∈ parts, part.Stable) : chain.Stable := by
  induction chain with
  | compound parts => exact stable_compound h.2 (hnot parts (List.mem_singleton_self parts))
  | step left k parts ih =>
    obtain ⟨hleft, -, hparts⟩ := h
    obtain ⟨hnot, hnot'⟩ := List.forall_mem_append.1 hnot
    exact ⟨ih hleft hnot, stable_compound hparts (hnot' parts (List.mem_singleton_self parts))⟩

/-! Whole trees. -/

theorem sound_of_wellShaped {selector : List Chain} (h : Selector.WellShaped selector) :
    Balanced true (Selector.chars selector) ∧ Selector.Legible selector ∧
      Selector.Stable selector := by
  induction selector using nests_induction with
  | nest selector ih =>
    have hnot {chain : Chain} (hchain : chain ∈ selector) :
        ∀ parts ∈ chain.compounds, ∀ alternatives, .not alternatives ∈ parts →
          Balanced true (Selector.chars alternatives) ∧ Selector.Legible alternatives ∧
            Selector.Stable alternatives := by
      intro parts hparts alternatives hpart
      have hnests : Nests selector alternatives := ⟨chain, hchain, parts, hparts, hpart⟩
      exact ih alternatives hnests (hnests.wellShaped h)
    have hshape := wellShaped_iff_forall.1 h
    have hbalanced {nested : Bool} : ∀ chain ∈ selector, Balanced nested chain.chars := by
      intro chain hchain
      exact balanced_chain (hshape chain hchain) fun parts hparts alternatives hpart =>
        (hnot hchain parts hparts alternatives hpart).1
    have hcut : IsCut selector := isCut_of_balanced hbalanced fun chain hchain =>
      (hasEdges_chain (hshape chain hchain)).isTrimmed
    refine ⟨balanced_chars hbalanced, legible_iff_forall.2 fun chain hchain => .inl ?_, hcut,
      allStable_iff_forall.2 fun chain hchain => ?_⟩
    · exact legible_chain (hshape chain hchain) nofun fun parts hparts alternatives hpart =>
        (hnot hchain parts hparts alternatives hpart).2.1
    · refine stable_chain (hshape chain hchain) fun parts hparts part hpart => ?_
      cases part with
      | not alternatives =>
        obtain ⟨hbalanced, -, hcut, hstable⟩ := hnot hchain parts hparts alternatives hpart
        exact ⟨hcut, hbalanced.crosses.enclosed_parenthesis [], hstable⟩
      | _ => trivial

/-- A well-shaped tree is read back from its canonical text. -/
theorem parse_render (selector : Selector) (h : Selector.WellShaped selector) :
    parse (Selector.render selector) = .ok selector := by
  obtain ⟨-, hlegible, hstable⟩ := sound_of_wellShaped h
  rw [parse, render, String.toList_ofList, read_chars hlegible hstable]

def awkward : Selector :=
  [.step
    (.compound [.tag "1a b", .className "x\"y,]z",
      .attribute ⟨"data-[q]", .contains, "it's \\ a ] \"quote\""⟩])
    .child
    [.not [
      .step (.compound [.id "-1,(2"]) .descendant
        [.contains "a),(\"b'c\\", .position (.nth .ofType ⟨-0x80000000, 0x7fffffff⟩)],
      .compound [.not [.compound [.universal, .root]]]], .empty]]

theorem parse_render_awkward : Selector.WellShaped awkward ∧
    parse (Selector.render awkward) = .ok awkward := by
  have h : Selector.WellShaped awkward := by decide
  exact ⟨h, parse_render awkward h⟩

end Selector
end DomQuery
