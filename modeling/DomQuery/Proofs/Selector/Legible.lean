import DomQuery.Proofs.Selector.Written

/-!
The trees that reading can give, and how the text of each of their parts is read again. What follows
a part matters: a name goes on as long as it can.
-/
namespace DomQuery
namespace Selector
open Text

def EndsName (next : Option Char) : Prop := ∀ c ∈ next, ¬ continuesName c

/-- Text that is no part of the language, as it is found before `next`. -/
inductive Unread (first : Bool) (next : Option Char) : List Char → Prop
  | junk {c : Char} {junk : List Char} (hc : endsJunk c = false)
    (hstart : c ≠ '*' ∧ c ≠ '.' ∧ c ≠ '#' ∧ c ≠ ':') (hfirst : startsTag c → first = false)
    (hjunk : ∀ x ∈ junk, endsJunk x = false) (hnext : ∀ x ∈ next, endsJunk x) :
    Unread first next (c :: junk)
  | bracket {body : List Char} (hbody : enclosed none ']' 0 none (body ++ [']']) = .closed body [])
    (htest : attributeTest? body = none) : Unread first next ('[' :: body ++ [']'])
  | pseudo {doubleColon : Bool} {name : List Char} (hname : nameSpan name = (name, []))
    (hescaped : Escaped (isNameChar ·) name ∨ next = none) (hnext : EndsName next)
    (hpart : pseudoPart read doubleColon name none =
      .ok (.unmatchable (String.ofList (pseudoText doubleColon name none)))) :
    Unread first next (pseudoText doubleColon name none)
  | call {doubleColon : Bool} {name argument : List Char} (hname : Escaped (isNameChar ·) name)
    (hargument : enclosed (some '(') ')' 0 none (argument ++ [')']) = .closed argument [])
    (hpart : pseudoPart read doubleColon name (some argument) =
      .ok (.unmatchable (String.ofList (pseudoText doubleColon name (some argument))))) :
    Unread first next (pseudoText doubleColon name (some argument))

end Selector

open Selector

def AttributeTest.Legible (test : AttributeTest) : Prop :=
  test.name ≠ "" ∧ (∀ c ∈ test.name.toList, endsAttributeName c = false) ∧
    (test.comparison = .present → test.value = "")

def Chain.IsSpoilt (chain : Chain) : Prop :=
  ∃ text : List Char, chain = .unmatchable (String.ofList text) ∧ Text.trim text = text ∧
    text ≠ [] ∧ readChain read text = .ok chain

mutual

/-- The part can be read from its text when `next` follows and the text before ends a part. -/
def Part.Legible (first : Bool) (next : Option Char) : Part → Prop
  | .universal => True
  | .tag name => first = true ∧ EndsName next ∧ (name = "" → next = none)
  | .id name => name ≠ "" ∧ EndsName next
  | .className name => name ≠ "" ∧ EndsName next
  | .attribute test => test.Legible
  | .position position => IsKeyword (.position position) → EndsName next
  | .empty => EndsName next
  | .root => EndsName next
  | .contains _ => True
  | .not alternatives => alternatives ≠ [] ∧ Selector.Legible alternatives
  | .unmatchable text => Unread first next text.toList

def Compound.Legible (first : Bool) (next : Option Char) : List Part → Prop
  | [] => True
  | part :: parts =>
    part.Legible first ((Compound.chars parts).head?.or next) ∧ Compound.Legible false next parts

def Chain.Legible (next : Option Char) : Chain → Prop
  | .compound parts => parts ≠ [] ∧ Compound.Legible true next parts
  | .step left _ parts =>
    Chain.Legible (some ' ') left ∧ parts ≠ [] ∧ Compound.Legible true next parts

def Selector.Legible : List Chain → Prop
  | [] => True
  | chain :: chains => (Chain.Legible none chain ∨ chain.IsSpoilt) ∧ Selector.Legible chains

end

namespace Selector

variable {first : Bool} {next : Option Char} {part : Part} {parts : Compound} {chain : Chain}
  {selector alternatives : List Chain}

theorem legible_keyword_iff (h : IsKeyword part) : part.Legible first next ↔ EndsName next := by
  cases part with
  | position position => exact ⟨fun hlegible => hlegible h, fun hnext _ => hnext⟩
  | empty => exact Iff.rfl
  | root => exact Iff.rfl
  | _ => exact absurd h not_false

theorem exists_legible_of_mem (h : Compound.Legible first next parts) (hmem : part ∈ parts) :
    ∃ first next, part.Legible first next := by
  induction parts generalizing first with
  | nil => exact absurd hmem List.not_mem_nil
  | cons part' parts ih =>
    obtain ⟨hpart, hparts⟩ := h
    cases List.mem_cons.1 hmem with
    | inl heq =>
      subst heq
      exact ⟨_, _, hpart⟩
    | inr hmem => exact ih hparts hmem

theorem exists_legible_of_mem_compounds (h : chain.Legible next) (hmem : parts ∈ chain.compounds) :
    ∃ next, parts ≠ [] ∧ Compound.Legible true next parts := by
  induction chain generalizing next with
  | compound parts' =>
    obtain rfl := List.mem_singleton.1 hmem
    exact ⟨next, h⟩
  | step left k parts' ih =>
    obtain ⟨hleft, hparts⟩ := h
    cases List.mem_append.1 hmem with
    | inl hmem => exact ih hleft hmem
    | inr hmem =>
      obtain rfl := List.mem_singleton.1 hmem
      exact ⟨next, hparts⟩

theorem legible_iff_forall :
    Selector.Legible selector ↔ ∀ chain ∈ selector, chain.Legible none ∨ chain.IsSpoilt := by
  induction selector with
  | nil => exact ⟨fun _ => List.forall_mem_nil _, fun _ => trivial⟩
  | cons chain chains ih => rw [List.forall_mem_cons, ← ih, Selector.Legible]

theorem Nests.legible (h : Nests selector alternatives) (hlegible : Selector.Legible selector) :
    alternatives ≠ [] ∧ Selector.Legible alternatives := by
  obtain ⟨chain, hchain, parts, hparts, hpart⟩ := h
  rcases legible_iff_forall.1 hlegible chain hchain with hchain | ⟨text, rfl, -⟩
  · obtain ⟨next, -, hlegible⟩ := exists_legible_of_mem_compounds hchain hparts
    obtain ⟨first, next, hlegible⟩ := exists_legible_of_mem hlegible hpart
    exact hlegible
  · obtain rfl := List.mem_singleton.1 hparts
    exact absurd (List.mem_singleton.1 hpart) nofun

end Selector
end DomQuery
