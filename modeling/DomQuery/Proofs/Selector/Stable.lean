import DomQuery.Proofs.Selector.Legible

/-!
When the canonical text of a tree is read as the same tree: it has to come apart where it was put
together, at the commas, at the parentheses of `:not` and between the parts of a compound.
-/
namespace DomQuery
namespace Selector
open Text

deriving instance DecidableEq for Enclosure

def isBare : Lexeme → Bool
  | .pseudo _ _ none => true
  | _ => false

def awaitsArgument : List Char → Bool
  | [] => false
  | c :: rest => isBare (lexeme false c rest).1 && (lexeme false c rest).2.isEmpty

/-- What follows is taken for an argument, or for the second of two colons. -/
def RunsInto (text : List Char) (next : Option Char) : Prop :=
  awaitsArgument text ∧ next = some '(' ∨ text = [':'] ∧ next = some ':'

/-- The printed list is cut into the printed chains, and trimming takes nothing from them. -/
def IsCut (selector : List Chain) : Prop :=
  chainTexts (Selector.chars selector) = selector.map Chain.chars

/-- The argument of a pseudo-class ends at the parenthesis printed behind it. -/
def IsEnclosed (argument : List Char) : Prop :=
  enclosed (some '(') ')' 0 none (argument ++ [')']) = .closed argument []

instance (text : List Char) (next : Option Char) : Decidable (RunsInto text next) :=
  inferInstanceAs (Decidable (_ ∨ _))

instance (selector : List Chain) : Decidable (IsCut selector) :=
  inferInstanceAs (Decidable (_ = _))

instance (argument : List Char) : Decidable (IsEnclosed argument) :=
  inferInstanceAs (Decidable (_ = _))

end Selector

open Selector

mutual

def Part.Stable : Part → Prop
  | .not alternatives => IsCut alternatives ∧ IsEnclosed (Selector.chars alternatives) ∧
    Selector.AllStable alternatives
  | _ => True

def Compound.Stable : List Part → Prop
  | [] => True
  | part :: parts =>
    part.Stable ∧ ¬ RunsInto part.chars (Compound.chars parts).head? ∧ Compound.Stable parts

def Chain.Stable : Chain → Prop
  | .compound parts => Compound.Stable parts
  | .step left _ parts => left.Stable ∧ Compound.Stable parts

def Selector.AllStable : List Chain → Prop
  | [] => True
  | chain :: chains => chain.Stable ∧ Selector.AllStable chains

end

/-- At each level of `:not`, the printed text comes apart where it was put together. -/
def Selector.Stable (selector : List Chain) : Prop := IsCut selector ∧ Selector.AllStable selector

mutual

def Part.decideStable : (part : Part) → Decidable part.Stable
  | .not alternatives =>
    have := Selector.decideAllStable alternatives
    inferInstanceAs (Decidable (IsCut alternatives ∧ IsEnclosed (Selector.chars alternatives) ∧
      Selector.AllStable alternatives))
  | .universal => inferInstanceAs (Decidable True)
  | .tag _ => inferInstanceAs (Decidable True)
  | .id _ => inferInstanceAs (Decidable True)
  | .className _ => inferInstanceAs (Decidable True)
  | .attribute _ => inferInstanceAs (Decidable True)
  | .position _ => inferInstanceAs (Decidable True)
  | .empty => inferInstanceAs (Decidable True)
  | .root => inferInstanceAs (Decidable True)
  | .contains _ => inferInstanceAs (Decidable True)
  | .unmatchable _ => inferInstanceAs (Decidable True)

def Compound.decideStable : (parts : List Part) → Decidable (Compound.Stable parts)
  | [] => inferInstanceAs (Decidable True)
  | part :: parts =>
    have := Part.decideStable part
    have := Compound.decideStable parts
    inferInstanceAs (Decidable (part.Stable ∧
      ¬ RunsInto part.chars (Compound.chars parts).head? ∧ Compound.Stable parts))

def Chain.decideStable : (chain : Chain) → Decidable chain.Stable
  | .compound parts => Compound.decideStable parts
  | .step left _ parts =>
    have := Chain.decideStable left
    have := Compound.decideStable parts
    inferInstanceAs (Decidable (left.Stable ∧ Compound.Stable parts))

def Selector.decideAllStable : (selector : List Chain) → Decidable (Selector.AllStable selector)
  | [] => inferInstanceAs (Decidable True)
  | chain :: chains =>
    have := Chain.decideStable chain
    have := Selector.decideAllStable chains
    inferInstanceAs (Decidable (chain.Stable ∧ Selector.AllStable chains))

end

instance (selector : List Chain) : Decidable (Selector.Stable selector) :=
  have := Selector.decideAllStable selector
  inferInstanceAs (Decidable (IsCut selector ∧ Selector.AllStable selector))

namespace Selector
open Text

variable {first doubleColon : Bool} {c : Char} {cs name argument more : List Char} {part : Part}
  {parts : Compound}

/-! What holds of a tree holds of the lists in it. -/

theorem stable_of_mem (h : Compound.Stable parts) (hmem : part ∈ parts) : part.Stable := by
  induction parts with
  | nil => exact absurd hmem List.not_mem_nil
  | cons part' parts ih =>
    obtain ⟨hpart, -, hparts⟩ := h
    cases List.mem_cons.1 hmem with
    | inl heq =>
      subst heq
      exact hpart
    | inr hmem => exact ih hparts hmem

theorem stable_of_mem_compounds {chain : Chain} (h : chain.Stable)
    (hmem : parts ∈ chain.compounds) : Compound.Stable parts := by
  induction chain with
  | compound parts' =>
    obtain rfl := List.mem_singleton.1 hmem
    exact h
  | step left k parts' ih =>
    obtain ⟨hleft, hparts⟩ := h
    cases List.mem_append.1 hmem with
    | inl hmem => exact ih hleft hmem
    | inr hmem =>
      obtain rfl := List.mem_singleton.1 hmem
      exact hparts

theorem allStable_iff_forall {selector : List Chain} :
    Selector.AllStable selector ↔ ∀ chain ∈ selector, chain.Stable := by
  induction selector with
  | nil => exact ⟨fun _ => List.forall_mem_nil _, fun _ => trivial⟩
  | cons chain chains ih => rw [List.forall_mem_cons, ← ih, Selector.AllStable]

theorem Nests.stable {selector alternatives : List Chain} (h : Nests selector alternatives)
    (hstable : Selector.Stable selector) :
    IsEnclosed (Selector.chars alternatives) ∧ Selector.Stable alternatives := by
  obtain ⟨chain, hchain, parts, hparts, hpart⟩ := h
  have hchain := allStable_iff_forall.1 hstable.2 chain hchain
  obtain ⟨hcut, henclosed, hall⟩ := stable_of_mem (stable_of_mem_compounds hchain hparts) hpart
  exact ⟨henclosed, hcut, hall⟩

/-! Pseudo-classes. -/

theorem continuesName_of_nameSpan (h : nameSpan name = (name, [])) :
    ∀ c ∈ name.head?, continuesName c := by
  intro c hc
  by_contra hcontinues
  have hnil : nameSpan name = ([], name) := nameSpan_of_not_continuesName fun d hd => by
    obtain rfl := Option.mem_unique hc hd
    exact hcontinues
  rw [hnil] at h
  obtain ⟨rfl, -⟩ := Prod.mk.inj h
  exact absurd hc nofun

theorem head?_ne_colon (h : nameSpan name = (name, [])) : name.head? ≠ some ':' := by
  intro hhead
  have hcontinues := continuesName_of_nameSpan h ':' (Option.mem_def.2 hhead)
  exact absurd hcontinues (by decide)

theorem awaitsArgument_pseudoText (h : nameSpan name = (name, [])) :
    awaitsArgument (pseudoText doubleColon name none) = true := by
  have htakes : Takes false (pseudoText doubleColon name none) (.pseudo doubleColon name none) [] :=
    .pseudo (by rwa [List.append_nil]) (fun _ => by rw [List.append_nil]; exact head?_ne_colon h)
      nofun
  obtain ⟨c, cs, htext, hlexeme⟩ := htakes.lexeme_eq
  rw [List.append_nil] at hlexeme
  rw [htext, awaitsArgument, hlexeme]
  rfl

theorem takes_pseudo (hname : nameSpan name = (name, []))
    (hescaped : Escaped (isNameChar ·) name ∨ more.head? = none) (hnext : EndsName more.head?)
    (hruns : ¬ RunsInto (pseudoText doubleColon name none) more.head?) :
    Takes first (pseudoText doubleColon name none) (.pseudo doubleColon name none) more := by
  have hspan : nameSpan (name ++ more) = (name, more) := by
    cases hescaped with
    | inl hescaped => exact hescaped.nameSpan_eq hnext
    | inr hmore =>
      rw [List.head?_eq_none_iff] at hmore
      rwa [hmore, List.append_nil]
  refine .pseudo hspan ?_ ?_
  · rintro rfl hhead
    cases name with
    | nil => exact hruns (.inr ⟨rfl, hhead⟩)
    | cons c name => exact head?_ne_colon hname hhead
  · intro hhead
    exact hruns (.inl ⟨awaitsArgument_pseudoText hname, hhead⟩)

theorem takes_call (hname : Escaped (isNameChar ·) name)
    (hargument : enclosed (some '(') ')' 0 none (argument ++ [')']) = .closed argument []) :
    Takes first (pseudoText doubleColon name (some argument))
      (.pseudo doubleColon name (some argument)) more := by
  refine .call ?_ (fun _ => head?_ne_colon hname.nameSpan_self) ?_
  · rw [List.append_assoc]
    exact hname.nameSpan_eq (by simp [continuesName, isNameChar])
  · have henclosed := enclosed_append hargument more
    rwa [List.append_assoc, List.singleton_append] at henclosed

/-! The text of a part is taken for the part. -/

/-- What a part needs besides its own text: that the list in it is read. -/
def Rereads (part : Part) : Prop :=
  ∀ alternatives, part = .not alternatives → IsEnclosed (Selector.chars alternatives) ∧
    read (Selector.chars alternatives) = .ok alternatives

theorem exists_startsTag_escapeTag (h : name ≠ []) : ∃ c cs, escapeTag name = c :: cs ∧
    startsTag c := by
  cases name with
  | nil => exact absurd rfl h
  | cons c name =>
    rw [escapeTag]
    split
    · exact ⟨'\\', _, rfl, by decide⟩
    · rename_i hdigit
      unfold escapeChar
      split
      · rename_i hname
        exact ⟨c, _, rfl, startsTag_iff.2 (.inl ⟨hname, hdigit⟩)⟩
      · exact ⟨'\\', _, rfl, by decide⟩

theorem exists_takes_unread {text : String} (h : Unread first more.head? text.toList)
    (hruns : ¬ RunsInto text.toList more.head?) :
    ∃ l, Takes first text.toList l more ∧ l.Yields (.unmatchable text) := by
  obtain ⟨cs, rfl⟩ : ∃ cs, text = String.ofList cs := ⟨text.toList, String.ofList_toList.symm⟩
  rw [String.toList_ofList] at h hruns ⊢
  cases h with
  | junk hc hstart hfirst hjunk hnext => exact ⟨_, .junk hc hstart hfirst hjunk hnext, rfl⟩
  | bracket hbody htest =>
    have henclosed := enclosed_append hbody more
    rw [List.append_assoc, List.singleton_append] at henclosed
    exact ⟨_, .bracket henclosed, by rw [Lexeme.Yields, attributePart, htest]⟩
  | pseudo hname hescaped hnext hpart =>
    exact ⟨_, takes_pseudo hname hescaped hnext hruns, hpart⟩
  | call hname hargument hpart => exact ⟨_, takes_call hname hargument, hpart⟩

theorem exists_takes_part (h : part.Legible first more.head?) (hne : part ≠ .tag "")
    (hruns : ¬ RunsInto part.chars more.head?) (hrereads : Rereads part) :
    ∃ l, Takes first part.chars l more ∧ l.Yields part := by
  cases part using form_cases with
  | universal => exact ⟨_, .universal, rfl⟩
  | tag name =>
    obtain ⟨rfl, hnext, -⟩ := h
    have hname : name.toList ≠ [] := by
      rintro hnil
      rw [String.toList_eq_nil_iff] at hnil
      exact hne (congrArg Part.tag hnil)
    have hspan := (escaped_escapeTag name.toList).nameSpan_eq hnext
    have hchars : Part.chars (.tag name) = escapeTag name.toList := rfl
    obtain ⟨c, cs, hcs, hstart⟩ := exists_startsTag_escapeTag hname
    rw [hcs] at hspan
    rw [hchars, hcs]
    refine ⟨_, .tag rfl hstart hspan, ?_⟩
    rw [← hcs, unescape_escapeTag, String.ofList_toList]
    rfl
  | id name =>
    obtain ⟨hname, hnext⟩ := h
    have hspan := (escaped_escapeName name.toList).nameSpan_eq hnext
    refine ⟨_, .id hspan ?_, ?_⟩
    · rw [unescape_escapeName]
      simpa using hname
    · rw [unescape_escapeName, String.ofList_toList]
      rfl
  | className name =>
    obtain ⟨hname, hnext⟩ := h
    have hspan := (escaped_escapeName name.toList).nameSpan_eq hnext
    refine ⟨_, .className hspan ?_, ?_⟩
    · rw [unescape_escapeName]
      simpa using hname
    · rw [unescape_escapeName, String.ofList_toList]
      rfl
  | test test =>
    obtain ⟨hname, hends, hpresent⟩ := h
    have henclosed := (crosses_testBody test).enclosed_bracket more
    have hchars : Part.chars (.attribute test) = '[' :: testBody test ++ [']'] := rfl
    rw [hchars]
    refine ⟨_, .bracket henclosed, ?_⟩
    rw [Lexeme.Yields, attributePart, attributeTest?_testBody hname hends hpresent]
  | keyword part hkeyword =>
    obtain ⟨word, hword, hchars, hkey⟩ := hkeyword.exists_word
    rw [hchars] at hruns ⊢
    have hnext := (legible_keyword_iff hkeyword).1 h
    exact ⟨_, takes_pseudo hword.escaped.nameSpan_self (.inl hword.escaped) hnext hruns,
      hword.pseudoPart_eq hkey⟩
  | call part word argument hcall =>
    have hword := isWord_of_call? hcall
    have hnot : ∀ alternatives, part = .not alternatives → alternatives ≠ [] ∧
        read (Selector.chars alternatives) = .ok alternatives := by
      rintro alternatives rfl
      exact ⟨h.1, (hrereads alternatives rfl).2⟩
    rw [chars_of_call? hcall]
    refine ⟨_, takes_call hword.escaped ?_, hword.pseudoPart_call_eq (withArgument?_eq hcall hnot)⟩
    by_cases hpart : ∃ alternatives, part = .not alternatives
    · obtain ⟨alternatives, rfl⟩ := hpart
      obtain ⟨-, rfl⟩ := Prod.mk.inj (Option.some.inj hcall)
      exact (hrereads alternatives rfl).1
    · have hbalanced := balanced_of_call? hcall fun alternatives h => hpart ⟨alternatives, h⟩
      exact hbalanced.crosses.enclosed_parenthesis []
  | unmatchable text => exact exists_takes_unread h hruns

end Selector
end DomQuery
