import DomQuery.Proofs.Matching.ClassNames
import DomQuery.Proofs.Query.Visibility
import DomQuery.Proofs.Selector.Names
import DomQuery.Proofs.Workspace.Runs

/-!
Elements addressed by what they are called. The canonical text of an id, a class or an attribute name
finds a visible element of that name, unless a blank at the end of the name or a character of an operator
inside it gets in the way.
-/
namespace DomQuery.Workspace
open Selector Text
variable {ws : Workspace} {dom : DomId} {n : NodeId} {e : Element} {part part' : Part}
  {name value : String}

/-- Selecting with the canonical text of a part finds the node. -/
def Addresses (ws : Workspace) (dom : DomId) (n : NodeId) (part : Part) : Prop :=
  ∃ c, ws.select dom (textOf part) = .ok c ∧ n ∈ c.nodes

theorem addresses_iff : ws.Addresses dom n part ↔
    ∃ selector, Selector.parse (textOf part) = .ok selector ∧ n ∈ (ws.document dom).select selector := by
  constructor
  · rintro ⟨c, hc, hn⟩
    obtain ⟨selector, hparse, hselect⟩ := bind_eq_ok.1 hc
    obtain rfl := Except.ok.inj hselect
    exact ⟨selector, hparse, mem_distinct.1 hn⟩
  · rintro ⟨selector, hparse, hn⟩
    exact ⟨_, bind_eq_ok.2 ⟨selector, hparse, rfl⟩, mem_distinct.2 hn⟩

section Visible
variable (h : (ws.document dom).WellFormed) (hn : (ws.document dom).Visible n)
  (he : (ws.document dom).element? n = some e)
include h hn he

theorem addresses_iff_partHolds (hparse : Selector.parse (textOf part) = .ok [.compound [part']]) :
    ws.Addresses dom n part ↔ (ws.document dom).partHolds n e part' := by
  have hselect : n ∈ (ws.document dom).select [.compound [part']] ↔
      (ws.document dom).partHolds n e part' := by
    rw [h.mem_select, ← Document.chainHolds_compound he]
    simp [hn]
  rw [addresses_iff, hparse]
  simp [hselect]

theorem addresses_named_iff {sigil : Char} (hsigil : sigil = '.' ∨ sigil = '#') (hne : name ≠ "") :
    ws.Addresses dom n (named sigil name) ↔
      clip name ≠ "" ∧ (ws.document dom).partHolds n e (named sigil (clip name)) := by
  by_cases hclip : clip name = ""
  · rw [addresses_iff]
    constructor
    · rintro ⟨selector, hparse, -⟩
      exact absurd hparse (parse_textOf_named_ne_ok hsigil hne hclip selector)
    · exact fun hname => absurd hclip hname.1
  · rw [addresses_iff_partHolds h hn he (parse_textOf_named hsigil hne hclip)]
    exact (and_iff_right hclip).symm

theorem addresses_id_iff (hne : name ≠ "") (hid : e.attributes.get? "id" = some name) :
    ws.Addresses dom n (.id name) ↔ IsName name := by
  have hsigil : '#' = '.' ∨ '#' = '#' := .inr rfl
  have hnamed := addresses_named_iff h hn he hsigil hne
  have hholds (other : String) :
      (ws.document dom).partHolds n e (named '#' other) ↔ name = other := by
    simp [named, Document.partHolds, hid]
  rw [hholds] at hnamed
  rw [isName_iff_clip]
  refine hnamed.trans ⟨fun hclip => ⟨hne, hclip.2.symm⟩, fun hclip => ⟨?_, hclip.2.symm⟩⟩
  rwa [hclip.2]

theorem addresses_className_iff (hne : name ≠ "") (hclass : name ∈ e.classList) :
    ws.Addresses dom n (.className name) ↔
      IsName name ∨ clip name ≠ "" ∧ (ws.document dom).hasClass n (clip name) := by
  have hsigil : '.' = '.' ∨ '.' = '#' := .inl rfl
  have hnamed := addresses_named_iff h hn he hsigil hne
  have hholds (other : String) :
      (ws.document dom).partHolds n e (named '.' other) = (ws.document dom).hasClass n other := by
    simp [named, Document.partHolds]
  rw [hholds] at hnamed
  refine hnamed.trans (or_iff_right_of_imp ?_).symm
  intro hname
  rw [clip_of_isName hname]
  exact ⟨hne, Document.hasClass_of_mem_classList (by simpa [Document.classList, he] using hclass)⟩

theorem addresses_present_iff (hne : name ≠ "") (hblank : ∀ c ∈ name.toList, ¬ isBlank c)
    (hattribute : e.attributes.get? name = some value) :
    ws.Addresses dom n (present name) ↔
      (∀ c ∈ name.toList, endsAttributeName c = false) ∨
        ∃ key expected, ReadsAsTest name key expected ∧ e.attributes.get? key = some expected := by
  rw [present, addresses_iff_partHolds h hn he (parse_textOf_test _)]
  by_cases hends : ∀ c ∈ name.toList, endsAttributeName c = false
  · have htest : attributeTest? (testBody ⟨name, .present, ""⟩) = some ⟨name, .present, ""⟩ :=
      attributeTest?_testBody hne hends fun _ => rfl
    rw [attributePart, htest]
    refine iff_of_true ?_ (.inl hends)
    simp [Document.partHolds, hattribute, AttributeTest.holdsOf]
  · have htest := attributeTest?_of_operator hblank hends
    rw [or_iff_right hends, attributePart]
    cases hread : attributeTest? (testBody ⟨name, .present, ""⟩) with
    | none =>
      simp only [Document.partHolds, Bool.false_eq_true, false_iff]
      rintro ⟨key, expected, hreads, -⟩
      have hsome := (htest _).2 ⟨key, expected, hreads, rfl⟩
      rw [hread] at hsome
      cases hsome
    | some test =>
      obtain ⟨key, expected, hreads, rfl⟩ := (htest test).1 hread
      have hholds : (ws.document dom).partHolds n e (.attribute ⟨key, .equals, expected⟩) ↔
          e.attributes.get? key = some expected := by
        cases hget : e.attributes.get? key <;>
          simp [Document.partHolds, AttributeTest.holdsOf, hget]
      refine hholds.trans ⟨fun hget => ⟨key, expected, hreads, hget⟩, ?_⟩
      rintro ⟨key', expected', hreads', hget⟩
      have hsome := (htest _).2 ⟨key', expected', hreads', rfl⟩
      rw [hread] at hsome
      obtain ⟨rfl, -, rfl⟩ := AttributeTest.mk.inj (Option.some.inj hsome)
      exact hget

end Visible

/-- Which names of a visible element the canonical text of a single part leads to. An id has to end in
no blank; a class that ends in one is found where the element has the class without the blank too; and
the name of an attribute has to be free of the characters of operators, or what they split it into has to
hold by chance. -/
theorem addresses_names (h : (ws.document dom).WellFormed) (hn : (ws.document dom).Visible n)
    (he : (ws.document dom).element? n = some e) :
    (∀ name ≠ "", e.attributes.get? "id" = some name →
      (ws.Addresses dom n (.id name) ↔ IsName name)) ∧
    (∀ name ∈ e.classList, name ≠ "" → (ws.Addresses dom n (.className name) ↔
      IsName name ∨ clip name ≠ "" ∧ (ws.document dom).hasClass n (clip name))) ∧
    ∀ name ≠ "", ∀ value, (∀ c ∈ name.toList, ¬ isBlank c) →
      e.attributes.get? name = some value →
      (ws.Addresses dom n (.attribute ⟨name, .present, ""⟩) ↔
        (∀ c ∈ name.toList, endsAttributeName c = false) ∨
          ∃ key expected, ReadsAsTest name key expected ∧ e.attributes.get? key = some expected) := by
  refine ⟨fun name hne hid => ?_, fun name hclass hne => ?_, fun name hne value hblank hvalue => ?_⟩
  · exact addresses_id_iff h hn he hne hid
  · exact addresses_className_iff h hn he hne hclass
  · exact addresses_present_iff h hn he hne hblank hvalue

def lone (e : Element) : Workspace :=
  { documents := #[{ slots := #[some { kind := .element e }], roots := [0] }] }

/-- Blanks at the start, commas, brackets and quotes are reached by their escapes. -/
theorem addresses_names_special :
    let e : Element :=
      { tag := "i", attributes := [("id", " a, b"), ("class", "p :not(*)"), ("@x[\"y\"]", "")] }
    ((lone e).document 0).WellFormed ∧ (lone e).Addresses 0 0 (.id " a, b") ∧
      (lone e).Addresses 0 0 (.className ":not(*)") ∧
      (lone e).Addresses 0 0 (.attribute ⟨"@x[\"y\"]", .present, ""⟩) := by
  intro e
  have h : ((lone e).document 0).WellFormed := by decide +kernel
  have hn : ((lone e).document 0).Visible 0 := by decide +kernel
  obtain ⟨hid, hclass, hattribute⟩ := addresses_names h hn rfl
  refine ⟨h, (hid _ (by decide) rfl).2 (by decide), ?_, ?_⟩
  · exact (hclass _ (by decide +kernel) (by decide)).2 (.inl (by decide))
  · exact (hattribute _ (by decide) "" (forall_of_all (by decide)) rfl).2
      (.inl (forall_of_all (by decide)))

/-- An element that has one name of each sort and is reached by none of them. -/
theorem not_addresses_names :
    let e : Element := { tag := "i", attributes := [("id", "a "), ("class", "b\u00a0"), ("x=y", "")] }
    ((lone e).document 0).WellFormed ∧ ((lone e).document 0).Visible 0 ∧
      ¬ (lone e).Addresses 0 0 (.id "a ") ∧ ¬ (lone e).Addresses 0 0 (.className "b\u00a0") ∧
      ¬ (lone e).Addresses 0 0 (.attribute ⟨"x=y", .present, ""⟩) := by
  intro e
  have h : ((lone e).document 0).WellFormed := by decide +kernel
  have hn : ((lone e).document 0).Visible 0 := by decide +kernel
  refine ⟨h, hn, ?_, ?_, ?_⟩
  · rw [addresses_id_iff h hn rfl (by decide) rfl]
    decide
  · rw [addresses_className_iff h hn rfl (by decide) (by decide +kernel)]
    decide +kernel
  · rw [← present, addresses_present_iff h hn rfl (by decide) (forall_of_all (by decide)) rfl]
    rintro (hends | ⟨key, expected, hreads, hget⟩)
    · exact absurd (hends '=' (by decide)) (by decide)
    · have happend : "x=y".toList = ['x'] ++ '=' :: ['y'] := rfl
      obtain ⟨hkey, -, -⟩ := hreads.eq_of_append happend (by decide) (forall_of_all (by decide))
      obtain rfl : "x" = key := String.toList_injective hkey
      cases hget

end DomQuery.Workspace
