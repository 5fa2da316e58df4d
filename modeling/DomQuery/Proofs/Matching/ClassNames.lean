import DomQuery.Collection.Filtering
import DomQuery.Proofs.Document.Classes
import DomQuery.Proofs.Matching.Assignment
import DomQuery.Proofs.Selector.Characters

/-!
Ways to ask for a class. The question whether an element has a class, the class in a selector and the test
for a word of the `class` attribute look at the same list of words. The first two ignore case. The third
does not, and it never holds of a word with a blank of Unicode in it, although such a blank separates no
words.
-/
namespace DomQuery
open Text

def classWord (name : String) : Part := .attribute ⟨"class", .word, name⟩

namespace Document
variable {d : Document} {n : NodeId} {nodes : List NodeId} {name : String}

theorem mem_classList_iff :
    name ∈ d.classList n ↔ ∃ text, d.attribute? n "class" = some text ∧ name ∈ words text := by
  rw [classList, attribute?]
  cases d.element? n with
  | none => simp
  | some e =>
    simp only [Option.map_some, Option.getD_some, Option.bind_some, Element.classList]
    cases e.attributes.get? "class" <;> simp

theorem hasClass_iff : d.hasClass n name ↔ ∃ x ∈ d.classList n, sameIgnoringCase x name := by
  simp only [hasClass, Option.any_eq_true, listsClass, List.any_eq_true, mem_classList_iff]
  constructor
  · rintro ⟨text, htext, x, hx, hsame⟩
    exact ⟨x, ⟨text, htext, hx⟩, hsame⟩
  · rintro ⟨x, ⟨text, htext, hx⟩, hsame⟩
    exact ⟨text, htext, x, hx, hsame⟩

theorem hasClass_of_mem_classList (h : name ∈ d.classList n) : d.hasClass n name :=
  hasClass_iff.2 ⟨name, h, by simp [sameIgnoringCase]⟩

theorem compoundHolds_className : d.compoundHolds n [.className name] ↔ d.hasClass n name := by
  cases he : d.element? n with
  | none => simp [compoundHolds, hasClass, attribute?, he]
  | some e => simp [compoundHolds, partsHold, partHolds, he]

theorem compoundHolds_classWord : d.compoundHolds n [classWord name] ↔
    name ∈ d.classList n ∧ ∀ c ∈ name.toList, isBlank c = false := by
  have htest (text : String) : AttributeTest.holdsOf ⟨"class", .word, name⟩ text ↔
      name ∈ words text ∧ ∀ c ∈ name.toList, isBlank c = false := by
    -- no word is empty, so of what the test refuses only blanks can stand in one
    have hne : name ∈ words text → name.isEmpty = false := fun hname => by
      simpa using (isWord_of_mem_words hname).ne_empty
    simp only [AttributeTest.holdsOf, Bool.and_eq_true, Bool.not_eq_true', List.any_eq_false,
      List.contains_iff_mem, Bool.not_eq_true]
    exact ⟨fun h => ⟨h.2, h.1.2⟩, fun h => ⟨⟨hne h.1, h.2⟩, h.1⟩⟩
  rw [mem_classList_iff, attribute?]
  cases he : d.element? n with
  | none => simp [compoundHolds, he]
  | some e =>
    simp only [compoundHolds, he, Option.any_some, partsHold, classWord, partHolds, Bool.and_true,
      Option.any_eq_true, htest, Option.bind_some]
    constructor
    · rintro ⟨text, htext, hname, hblank⟩
      exact ⟨⟨text, htext, hname⟩, hblank⟩
    · rintro ⟨⟨text, htext, hname⟩, hblank⟩
      exact ⟨text, htext, hname, hblank⟩

/-- After a word has been added to the classes of an element, the element has the class, whichever way the
question is put, but for the test for a word, which asks for no blank of Unicode in it. After it has been
removed that test does not hold. In every state the test for a word implies the class in a selector, and
this is the same as having the class. -/
theorem class_views (hnodes : nodes.Nodup) (hn : n ∈ nodes) (helement : d.isElement n)
    (hname : IsWord name) :
    ((d.addClass name nodes).hasClass n name ∧
      (d.addClass name nodes).compoundHolds n [.className name] ∧
      ((d.addClass name nodes).compoundHolds n [classWord name] ↔
        ∀ c ∈ name.toList, isBlank c = false)) ∧
      ¬ (d.removeClass name nodes).compoundHolds n [classWord name] ∧
      ∀ (state : Document) (m : NodeId),
        (state.compoundHolds m [classWord name] → state.compoundHolds m [.className name]) ∧
        (state.compoundHolds m [.className name] ↔ state.hasClass m name) ∧
        ∀ c : Collection, c.nodes = [m] → c.hasClass state name = state.hasClass m name := by
  have hwords := words_of_isWord hname
  have hadded : name ∈ (d.addClass name nodes).classList n := by
    rw [classList_addClass hnodes, if_pos ⟨hn, helement⟩, ClassList.mem_add, hwords]
    exact .inr List.mem_cons_self
  have hremoved : name ∉ (d.removeClass name nodes).classList n := by
    rw [classList_removeClass hnodes, if_pos ⟨hn, helement⟩, ClassList.mem_remove, hwords]
    exact fun hmem => hmem.2 List.mem_cons_self
  have hhas := hasClass_of_mem_classList hadded
  refine ⟨⟨hhas, compoundHolds_className.2 hhas, ?_⟩, fun hholds => ?_,
    fun state m => ⟨fun hholds => ?_, compoundHolds_className, fun c hc => ?_⟩⟩
  · rw [compoundHolds_classWord]
    exact and_iff_right hadded
  · exact hremoved (compoundHolds_classWord.1 hholds).1
  · exact compoundHolds_className.2 (hasClass_of_mem_classList (compoundHolds_classWord.1 hholds).1)
  · simp [Collection.hasClass, hc]

/-- A class of an element that lists others, one of them twice. -/
theorem class_views_listed :
    let d : Document := { slots := #[
      some { kind := .element { tag := "i", attributes := [("class", "B  a\tB")] } },
      some { kind := .element { tag := "i" } }] }
    [1, 0].Nodup ∧ d.isElement 0 ∧ IsWord "b" ∧ (d.addClass "b" [1, 0]).hasClass 0 "b" ∧
      (d.addClass "b" [1, 0]).compoundHolds 0 [classWord "b"] ∧
      ¬ (d.removeClass "b" [1, 0]).compoundHolds 0 [classWord "b"] := by
  intro d
  have hnodes : [1, 0].Nodup := by decide
  have hb : IsWord "b" := by decide
  obtain ⟨⟨hhas, -, hword⟩, hremoved, -⟩ :=
    class_views (d := d) hnodes (n := 0) (by decide) (by decide +kernel) hb
  exact ⟨hnodes, by decide +kernel, hb, hhas, hword.2 (Selector.forall_of_all (by decide)), hremoved⟩

/-- A no-break space separates no words, and it keeps the test for a word from ever holding. -/
theorem not_class_views :
    let d : Document := { slots := #[some { kind := .element { tag := "i" } }] }
    d.isElement 0 ∧ IsWord "a\u00a0b" ∧ (d.addClass "a\u00a0b" [0]).classList 0 = ["a\u00a0b"] ∧
      (d.addClass "a\u00a0b" [0]).compoundHolds 0 [.className "a\u00a0b"] ∧
      ¬ (d.addClass "a\u00a0b" [0]).compoundHolds 0 [classWord "a\u00a0b"] := by
  decide +kernel

end Document
end DomQuery
