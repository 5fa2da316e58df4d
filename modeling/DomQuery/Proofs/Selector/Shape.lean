import DomQuery.Proofs.Selector.Canonical
import DomQuery.Proofs.Selector.RoundTrip
import Mathlib.Logic.Relation

/-!
The shape of the trees that reading gives, at every depth, whatever the text: no compound and no list in a
`:not` is empty, tags come first, and names, tests and texts that could not be understood are as they can
be written. The empty list stands for the texts of blanks and commas.
-/
namespace DomQuery

/-- The name is there and holds nothing that would end it. A test without comparison has no value. -/
structure AttributeTest.Shapely (test : AttributeTest) : Prop where
  name_ne : test.name ≠ ""
  not_ends : ∀ c ∈ test.name.toList, ¬ Text.isBlank c ∧ c ∉ ['=', '~', '|', '^', '$', '*', '!']
  value_eq : test.comparison = .present → test.value = ""

def Part.Shapely : Part → Prop
  | .id name => name ≠ ""
  | .className name => name ≠ ""
  | .attribute test => test.Shapely
  | .not alternatives => alternatives ≠ []
  | .unmatchable text => text ≠ ""
  | _ => True

structure Compound.Shapely (parts : Compound) : Prop where
  ne_nil : parts ≠ []
  tag_first : ∀ i name, parts[i]? = some (.tag name) → i = 0
  part : ∀ part ∈ parts, part.Shapely

namespace Selector
open Text

variable {first : Bool} {next : Option Char} {n : Nesting} {c : Char} {cs text : List Char}
  {part : Part} {parts : Compound} {chain : Chain} {selector list : List Chain}
  {pieces : List (List Char)} {p : Char → Prop}

/-- The list is the selector or stands in it, in a `:not` at any depth. -/
def Holds (selector list : List Chain) : Prop := Relation.ReflTransGen Nests selector list

/-- Every compound of the selector, at every depth, has a good shape. -/
def Shapely (selector : List Chain) : Prop :=
  ∀ list, Holds selector list → ∀ chain ∈ list, ∀ parts ∈ chain.compounds, Compound.Shapely parts

/-! Legible trees are shapely. -/

theorem ends_of_mem_operators (h : c ∈ ['=', '~', '|', '^', '$', '*', '!']) : endsAttributeName c :=
  forall_of_all (P := fun c => endsAttributeName c = true) (by decide) c h

theorem shapely_of_legible_test {test : AttributeTest} (h : test.Legible) : test.Shapely where
  name_ne := h.1
  not_ends c hc := by
    have hends := h.2.1 c hc
    constructor
    · intro hblank
      simp [endsAttributeName, hblank] at hends
    · intro hoperator
      exact absurd (ends_of_mem_operators hoperator) (by simp [hends])
  value_eq := h.2.2

theorem Unread.ne_nil (h : Unread first next cs) : cs ≠ [] := by
  cases h with
  | junk _ _ _ _ _ => exact List.cons_ne_nil _ _
  | bracket _ _ => exact List.cons_ne_nil _ _
  | @pseudo doubleColon _ _ _ _ _ => cases doubleColon <;> exact List.cons_ne_nil _ _
  | @call doubleColon _ _ _ _ _ => cases doubleColon <;> exact List.cons_ne_nil _ _

theorem shapely_of_legible_part (h : part.Legible first next) : part.Shapely := by
  cases part with
  | id name => exact h.1
  | className name => exact h.1
  | «attribute» test => exact shapely_of_legible_test h
  | not alternatives => exact h.1
  | unmatchable text =>
    rintro rfl
    exact Unread.ne_nil h rfl
  | _ => trivial

theorem shapely_of_legible_compound (h : Compound.Legible true next parts) (hne : parts ≠ []) :
    Compound.Shapely parts where
  ne_nil := hne
  tag_first i name hi := by
    cases parts with
    | nil => exact absurd rfl hne
    | cons part parts =>
      cases i with
      | zero => rfl
      | succ i =>
        rw [List.getElem?_cons_succ] at hi
        exact absurd (List.mem_of_getElem? hi) (tag_not_mem h.2)
  part part hmem := by
    obtain ⟨first, next, hpart⟩ := exists_legible_of_mem h hmem
    exact shapely_of_legible_part hpart

theorem shapely_of_isSpoilt (h : chain.IsSpoilt) : ∀ parts ∈ chain.compounds, Compound.Shapely parts := by
  obtain ⟨text, rfl, -, hne, -⟩ := h
  refine List.forall_mem_singleton.2 ⟨List.cons_ne_nil _ _, fun i name hi => ?_, ?_⟩
  · cases i with
    | zero => rfl
    | succ i => cases hi
  · refine List.forall_mem_singleton.2 ?_
    rwa [Part.Shapely, Ne, String.ofList_eq_empty_iff]

theorem legible_of_holds (hlegible : Selector.Legible selector) (h : Holds selector list) :
    Selector.Legible list := by
  induction h with
  | refl => exact hlegible
  | tail _ hnests ih => exact (hnests.legible ih).2

theorem shapely_of_legible (h : Selector.Legible selector) : Shapely selector := by
  intro list hholds chain hchain
  rcases legible_iff_forall.1 (legible_of_holds h hholds) chain hchain with hchain | hspoilt
  · intro parts hparts
    obtain ⟨next, hne, hlegible⟩ := exists_legible_of_mem_compounds hchain hparts
    exact shapely_of_legible_compound hlegible hne
  · exact shapely_of_isSpoilt hspoilt

/-! Texts without chains. -/

theorem trim_eq_nil_iff : trim cs = [] ↔ ∀ c ∈ cs, isBlank c := by
  have hright : trim cs = [] ↔ ∀ c ∈ trimLeft cs, isBlank c := by
    rw [trim, trimRight, List.reverse_eq_nil_iff, List.dropWhile_eq_nil_iff]
    simp only [List.mem_reverse]
  have hblank : ∀ c ∈ cs.takeWhile isBlank, isBlank c := List.all_eq_true.1 List.all_takeWhile
  rw [hright]
  conv_rhs => rw [← List.takeWhile_append_dropWhile (p := isBlank) (l := cs), List.forall_mem_append]
  exact (and_iff_right hblank).symm

theorem forall_mem_addToFirst : (∀ piece ∈ addToFirst text pieces, ∀ c ∈ piece, p c) ↔
    (∀ c ∈ text, p c) ∧ ∀ piece ∈ pieces, ∀ c ∈ piece, p c := by
  cases pieces with
  | nil => simp [addToFirst]
  | cons first pieces =>
    rw [addToFirst, List.forall_mem_cons, List.forall_mem_cons, List.forall_mem_append, and_assoc]

theorem forall_mem_of_splitOuter (h : ∀ piece ∈ splitOuter n cs, ∀ c ∈ piece, p c) :
    ∀ c ∈ cs, p c ∨ c = ',' := by
  fun_induction splitOuter n cs with
  | case1 => exact List.forall_mem_nil _
  | case2 => exact fun c hc => .inl (h _ (List.mem_singleton_self _) c hc)
  | case3 n c rest ih =>
    obtain ⟨hpair, hrest⟩ := forall_mem_addToFirst.1 h
    obtain ⟨hslash, hc⟩ := List.forall_mem_cons.1 hpair
    refine List.forall_mem_cons.2 ⟨.inl hslash, List.forall_mem_cons.2 ⟨.inl ?_, ih hrest⟩⟩
    exact hc c (List.mem_singleton_self c)
  | case4 n c rest _ _ hcomma ih =>
    have hc : c = ',' := eq_of_beq (Bool.and_eq_true_iff.1 hcomma).1
    exact List.forall_mem_cons.2 ⟨.inr hc, ih (List.forall_mem_cons.1 h).2⟩
  | case5 n c rest _ _ _ ih =>
    obtain ⟨hc, hrest⟩ := forall_mem_addToFirst.1 h
    exact List.forall_mem_cons.2 ⟨.inl (hc c (List.mem_singleton_self c)), ih hrest⟩

theorem isBlank_of_mem_splitOuter (h : ∀ c ∈ cs, isBlank c ∨ c = ',') :
    ∀ piece ∈ splitOuter {} cs, ∀ c ∈ piece, isBlank c := by
  induction cs with
  | nil => exact List.forall_mem_singleton.2 (List.forall_mem_nil _)
  | cons c cs ih =>
    obtain ⟨hc, hcs⟩ := List.forall_mem_cons.1 h
    by_cases hcomma : c = ','
    · subst hcomma
      rw [splitOuter_cons (by decide), if_pos (by decide)]
      exact List.forall_mem_cons.2 ⟨List.forall_mem_nil _, ih hcs⟩
    · have hblank := hc.resolve_right hcomma
      have hplain : c ∉ ['\\', '[', '(', ']', ')', '"', '\''] := by
        intro hmem
        exact forall_of_all (P := fun c => ¬ isBlank c) (by decide) c hmem hblank
      have hafter : Nesting.after {} c = {} := by
        simp_all [Nesting.after, isQuote]
      have hslash : c ≠ '\\' := fun heq => hplain (by simp [heq])
      rw [splitOuter_cons hslash, if_neg (by simp [hcomma]), hafter, forall_mem_addToFirst]
      exact ⟨List.forall_mem_singleton.2 hblank, ih hcs⟩

theorem chainTexts_eq_nil_iff : chainTexts text = [] ↔ ∀ c ∈ text, isBlank c ∨ c = ',' := by
  have hpieces : chainTexts text = [] ↔ ∀ piece ∈ splitOuter {} text, ∀ c ∈ piece, isBlank c := by
    rw [chainTexts, List.filter_eq_nil_iff, List.forall_mem_map]
    simp only [← trim_eq_nil_iff, Bool.not_eq_true, Bool.not_eq_false', List.isEmpty_iff]
  rw [hpieces]
  exact ⟨forall_mem_of_splitOuter, isBlank_of_mem_splitOuter⟩

theorem read_eq_ok_nil_iff : read text = .ok [] ↔ chainTexts text = [] := by
  rw [read_eq_ok_iff]
  exact List.forall₂_nil_right_iff

/-- Every tree that is read is shapely at every depth. The empty tree is read exactly from the texts of
blanks and commas. -/
theorem parse_shapely (text : String) :
    (∀ selector, parse text = .ok selector → Shapely selector) ∧
      (parse text = .ok [] ↔ ∀ c ∈ text.toList, isBlank c ∨ c = ',') := by
  constructor
  · intro selector h
    exact shapely_of_legible (legible_of_read (parse_eq_ok_iff.1 h))
  · rw [parse_eq_ok_iff, read_eq_ok_nil_iff, chainTexts_eq_nil_iff]

/-- The list of `[c]:root` is two levels deep. -/
theorem parse_shapely_nested :
    let innermost : List Chain := [.compound [.attribute ⟨"c", .present, ""⟩, .root]]
    let inner : List Chain := [.compound [.className "b", .not innermost]]
    let outer : List Chain := [.step (.compound [.tag "a", .not inner]) .child [.universal]]
    parse (render outer) = .ok outer ∧ Holds outer innermost ∧
      (∀ chain ∈ innermost, ∀ parts ∈ chain.compounds, Compound.Shapely parts) ∧
      parse " ,\n\u00a0," = .ok [] := by
  intro innermost inner outer
  have hparse : parse (render outer) = .ok outer := by
    have hshaped : Selector.WellShaped outer := by decide
    obtain ⟨-, hlegible, hstable⟩ := sound_of_wellShaped hshaped
    rw [parse_eq_ok_iff, render, String.toList_ofList, read_chars hlegible hstable]
  have hinner : Nests outer inner := ⟨_, List.mem_cons_self, [.tag "a", .not inner],
    List.mem_cons_self, List.mem_cons_of_mem _ List.mem_cons_self⟩
  have hinnermost : Nests inner innermost := ⟨_, List.mem_cons_self, [.className "b", .not innermost],
    List.mem_cons_self, List.mem_cons_of_mem _ List.mem_cons_self⟩
  have hholds : Holds outer innermost := .tail (.single hinner) hinnermost
  exact ⟨hparse, hholds, (parse_shapely (render outer)).1 outer hparse innermost hholds,
    (parse_shapely _).2.2 (forall_of_all (by decide))⟩

end Selector
end DomQuery
