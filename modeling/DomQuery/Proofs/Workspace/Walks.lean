import DomQuery.Proofs.Workspace.Fragments
import DomQuery.Proofs.Workspace.Scoping

/-!
Walks up and down. What is found below an element is all that the element is an ancestor of; the walk up
from there ends at the first fragment, so it leads back unless a fragment stands in between, and in a run
that puts no fragment into a node none does.
-/
namespace DomQuery
namespace Document
variable {d : Document} {n m p a : NodeId}

theorem WellFormed.isElement_parent (h : d.WellFormed) (hp : d.parent? n = some p)
    (hkind : ¬ d.isFragment p) : d.isElement p := by
  have hleaf := h.not_isLeaf_parent hp
  obtain ⟨node, hnode⟩ := Option.isSome_iff_exists.1 (h.isAllocated_parent hp)
  rw [isLeaf, kind?, hnode] at hleaf
  rw [isFragment, kind?, hnode] at hkind
  rw [isElement, element?, kind?, hnode]
  cases hk : node.kind <;> simp_all [Kind.isLeaf, Kind.isFragment, Kind.element?]

/-- The elements that are ancestors are those that the search for a chain climbs to. -/
theorem WellFormed.elementAncestors_eq (h : d.WellFormed) (n : NodeId) :
    d.elementAncestors n = d.parentsBelow none d.slots.size n := by
  have within (bound : Nat) (n : NodeId) :
      ((d.ancestorsWithin bound n).takeWhile (!d.isFragment ·)).filter d.isElement =
        d.parentsBelow none bound n := by
    induction bound generalizing n with
    | zero => rfl
    | succ bound ih =>
      rw [ancestorsWithin, parentsBelow, parentBelow?, parentElement?]
      cases hp : d.parent? n with
      | none => rfl
      | some p =>
        by_cases hfragment : d.isFragment p
        · have helement : ¬ d.isElement p := fun hkind => not_isFragment_of_isElement hkind hfragment
          simp [hfragment, helement, Option.filter]
        · simp [hfragment, h.isElement_parent hp hfragment, ih, Option.filter]
  exact within d.slots.size n

theorem WellFormed.mem_elementAncestors_iff (h : d.WellFormed) :
    a ∈ d.elementAncestors n ↔ Relation.TransGen (d.StepsUp none) n a := by
  rw [h.elementAncestors_eq]
  exact @mem_related_iff d none n a .descendant

/-- The walk up over elements reaches what is above, unless there is a fragment on the way. -/
theorem WellFormed.mem_elementAncestors (h : d.WellFormed) (ha : ¬ d.isFragment a) :
    a ∈ d.elementAncestors n ↔
      d.isWithin n a ∧ ∀ m, d.isWithin n m → d.isWithin m a → ¬ d.isFragment m := by
  rw [h.mem_elementAncestors_iff]
  constructor
  · intro hwalk
    induction hwalk using Relation.TransGen.head_induction_on with
    | @single n hstep =>
      obtain ⟨hparent, -⟩ := Option.filter_eq_some_iff.1 hstep.1
      refine ⟨isWithin_of_parent? hparent, fun m hm hma => ?_⟩
      -- nothing lies between a node and its parent
      rcases (isWithin_iff_of_parent? hparent).1 hm with rfl | ham
      · exact absurd hma (h.not_isWithin_self a)
      · exact absurd hma (h.not_isWithin_of_isWithin ham)
    | @head n p hstep _ ih =>
      obtain ⟨hparent, hp⟩ := Option.filter_eq_some_iff.1 hstep.1
      obtain ⟨hpa, hfree⟩ := ih
      refine ⟨isWithin_trans (isWithin_of_parent? hparent) hpa, fun m hm hma => ?_⟩
      rcases (isWithin_iff_of_parent? hparent).1 hm with rfl | hpm
      · exact not_isFragment_of_isElement hp
      · exact hfree m hpm hma
  · rintro ⟨hna, hfree⟩
    have hstep {n p : NodeId} (hparent : d.parent? n = some p) (hp : ¬ d.isFragment p) :
        d.StepsUp none n p :=
      ⟨Option.filter_eq_some_iff.2 ⟨hparent, h.isElement_parent hparent hp⟩, nofun⟩
    induction isWithin_iff.1 hna using Relation.TransGen.head_induction_on with
    | single hparent => exact .single (hstep hparent ha)
    | @head n p hparent hpa ih =>
      have hnp := isWithin_of_parent? hparent
      have hpa := isWithin_iff.2 hpa
      exact .head (hstep hparent (hfree p hnp hpa))
        (ih hpa fun m hpm => hfree m (isWithin_trans hnp hpm))

end Document

namespace Collection
variable {d : Document} {dom : DomId} {n a : NodeId}

theorem exists_find_star (h : d.WellFormed) (hn : d.isElement n) (dom : DomId) (a : NodeId) :
    ∃ below, ({ dom, nodes := [a] } : Collection).find d "*" = .ok below ∧
      (n ∈ below.nodes ↔ d.isWithin n a) := by
  refine ⟨_, find_eq_ok Selector.parse_star, ?_⟩
  rw [nodes_derive, mem_distinct, h.mem_query, Document.selects_everything, and_iff_right hn]
  simp only [List.mem_singleton, exists_eq_left]
  rfl

theorem exists_parents (h : d.WellFormed) (ha : d.isElement a) (dom : DomId) (n : NodeId) :
    ∃ above, ({ dom, nodes := [n] } : Collection).parents d none = .ok above ∧
      (a ∈ above.nodes ↔
        d.isWithin n a ∧ ∀ m, d.isWithin n m → d.isWithin m a → ¬ d.isFragment m) := by
  refine ⟨_, rfl, ?_⟩
  rw [nodes_derive, mem_distinct, Document.applyFilter, mem_distinct, List.flatMap_singleton,
    h.mem_elementAncestors (Document.not_isFragment_of_isElement ha)]

end Collection

namespace Workspace
open Document Collection

/-- After any run, what `*` finds below an element are the elements that it contains. The parents of such
an element are those that contain it, up to the first fragment; and when no operation was called to put a
fragment into a node, all fragments have no parent, and the walks up and down agree. -/
theorem walks_agree (ops : List Operation) (hops : ({} : Workspace).Admits ops) (dom : DomId)
    (a n : NodeId) (ha : ((({} : Workspace).run ops).document dom).isElement a)
    (hn : ((({} : Workspace).run ops).document dom).isElement n) :
    let d := (({} : Workspace).run ops).document dom
    ∃ below above, ({ dom, nodes := [a] } : Collection).find d "*" = .ok below ∧
      ({ dom, nodes := [n] } : Collection).parents d none = .ok above ∧
      (n ∈ below.nodes ↔ d.isWithin n a) ∧
      (a ∈ above.nodes ↔
        d.isWithin n a ∧ ∀ m, d.isWithin n m → d.isWithin m a → ¬ d.isFragment m) ∧
      (({} : Workspace).SparesFragments ops →
        d.FragmentsOnTop ∧ (a ∈ above.nodes ↔ d.isWithin n a)) := by
  intro d
  have h : d.WellFormed := ((sound_empty.run hops).document dom).toWellFormed
  obtain ⟨below, hfind, hbelow⟩ := exists_find_star h hn dom a
  obtain ⟨above, hparents, habove⟩ := exists_parents h ha dom n
  refine ⟨below, above, hfind, hparents, hbelow, habove, fun hspares => ?_⟩
  have htop : d.FragmentsOnTop := fragmentsOnTop_empty.run sound_empty hops hspares dom
  refine ⟨htop, habove.trans (and_iff_left fun m _ hma => ?_)⟩
  exact htop.not_isFragment_of_isWithin hma

/-- An element in an element, and that one in a fragment. -/
theorem walks_agree_section :
    let ops : List Operation := [
      .change 0 (.create .fragment .html),
      .change 0 (.create (.element { tag := "section" }) .html),
      .change 0 (.create (.element { tag := "p" }) .html),
      .change 0 (.move (.lastIn 0) 1),
      .change 0 (.move (.lastIn 1) 2)]
    let d := (({} : Workspace).run ops).document 0
    d.isWithin 2 1 ∧ d.FragmentsOnTop ∧
      ∃ below above, ({ dom := 0, nodes := [1] } : Collection).find d "*" = .ok below ∧
        ({ dom := 0, nodes := [2] } : Collection).parents d none = .ok above ∧
        (2 ∈ below.nodes ↔ d.isWithin 2 1) ∧ (1 ∈ above.nodes ↔ d.isWithin 2 1) := by
  intro ops d
  obtain ⟨below, above, hfind, hparents, hbelow, -, hspared⟩ :=
    walks_agree ops (by decide +kernel) 0 1 2 (by decide +kernel) (by decide +kernel)
  obtain ⟨htop, habove⟩ := hspared (by decide +kernel)
  exact ⟨by decide +kernel, htop, below, above, hfind, hparents, hbelow, habove⟩

/-- A fragment can be moved into a node like any other, and then it hides what is above it from what is
below it. -/
theorem not_walks_agree : ¬ ∀ (ops : List Operation), ({} : Workspace).Admits ops →
    ∀ (dom : DomId) (a n : NodeId) (below above : Collection),
      let d := (({} : Workspace).run ops).document dom
      d.isElement a → d.isElement n →
      ({ dom, nodes := [a] } : Collection).find d "*" = .ok below →
      ({ dom, nodes := [n] } : Collection).parents d none = .ok above →
      (n ∈ below.nodes ↔ a ∈ above.nodes) ∧ (a ∈ above.nodes ↔ d.isWithin n a) := by
  intro hagree
  have hat := hagree [
      .change 0 (.create (.element { tag := "section" }) .html),
      .change 0 (.create .fragment .html),
      .change 0 (.create (.element { tag := "p" }) .html),
      .change 0 (.move (.lastIn 0) 1),
      .change 0 (.move (.lastIn 1) 2)] (by decide +kernel) 0 0 2 _ _
    (by decide +kernel) (by decide +kernel) (find_eq_ok Selector.parse_star) rfl
  exact absurd hat.2 (by decide +kernel)

end Workspace
end DomQuery
