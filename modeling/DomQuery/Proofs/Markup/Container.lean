import DomQuery.Proofs.Document.Fragments
import DomQuery.Proofs.Markup.Forest

/-!
The container of a forest. It is the only fragment that reading markup makes, and as no edit can name it
as the node to be moved, it is put nowhere; so reading gives no fragment a parent.
-/
namespace DomQuery
variable {d other : Document} {n : NodeId}

namespace Document

theorem spares_putText (d : Document) (spot : Spot) (text : String) : d.Spares (d.putText spot text) := by
  have hcreate := d.spares_create (show ¬ (Kind.text text).isFragment from Bool.false_ne_true) .html
  exact hcreate.trans (spares_tryPut _ (hcreate.not_isFragment_of_le (Nat.le_refl d.fresh)))

theorem spares_appendText (d : Document) (p : NodeId) (text : String) : d.Spares (d.appendText p text) := by
  rw [Document.appendText]
  split
  · exact spares_putText d _ text
  split
  · exact spares_putText d _ text
  · refine spares_modify (fun node => ?_) fun node _ hkind => ?_
    · split <;> rfl
    · split at hkind
      · cases hkind
      · exact hkind

end Document

/-! Edits. -/

namespace Markup.Site

/-- No handle stands for a fragment, and no fragment has been put anywhere. -/
structure Apart (s : Site) : Prop extends s.Sound where
  fragmentsOnTop : s.document.FragmentsOnTop
  not_isFragment : ∀ n ∈ s.nodes, ¬ s.document.isFragment n

namespace Apart
variable {s : Site} (h : s.Apart)
include h

theorem of_spares (hsound : Sound { s with document := d }) (hd : s.document.Spares d) :
    Apart { s with document := d } where
  toSound := hsound
  fragmentsOnTop := h.fragmentsOnTop.of_spares hd
  not_isFragment n hn := hd.not_isFragment (h.not_isFragment n hn)

theorem not_isFragment_node {handle : Handle} (hn : s.nodes[handle]? = some n) : ¬ s.document.isFragment n :=
  h.not_isFragment n (Array.mem_of_getElem? hn)

theorem add {kind : Kind} (hkind : ¬ kind.isFragment) (space : Namespace) : (s.add kind space).Apart := by
  have hcreate := s.document.spares_create hkind space
  refine ⟨h.toSound.add kind space, h.fragmentsOnTop.of_spares hcreate, fun n hn => ?_⟩
  cases Array.mem_push.1 hn with
  | inl hn => exact hcreate.not_isFragment (h.not_isFragment n hn)
  | inr heq => exact heq ▸ hcreate.not_isFragment_of_le (Nat.le_refl s.document.fresh)

theorem append (parent : Option Handle) (addition : Addition) : (s.append parent addition).Apart := by
  have hsound := h.toSound.append parent addition
  cases addition with
  | node handle =>
    rw [Site.append] at hsound ⊢
    split at hsound
    · rename_i hn
      exact h.of_spares hsound (Document.spares_tryPut _ (h.not_isFragment_node hn))
    · exact h
  | text text =>
    rw [Site.append] at hsound ⊢
    split at hsound
    · exact h.of_spares hsound (Document.spares_appendText _ _ text)
    · exact h

theorem appendBefore (sibling : Handle) (addition : Addition) : (s.appendBefore sibling addition).Apart := by
  have hsound := h.toSound.appendBefore sibling addition
  cases addition with
  | node handle =>
    rw [Site.appendBefore] at hsound ⊢
    split at hsound
    · rename_i hn
      exact h.of_spares hsound (Document.spares_tryPut _ (h.not_isFragment_node hn))
    · exact h
  | text text =>
    rw [Site.appendBefore] at hsound ⊢
    split at hsound
    · exact h.of_spares hsound (Document.spares_putText _ _ text)
    · exact h

theorem apply (edit : Edit) : (s.apply edit).Apart := by
  have hsound := h.toSound.apply edit
  cases edit with
  | element tag space attributes =>
    exact h.add (show ¬ (Kind.element { tag, attributes := .ofPairs attributes }).isFragment from
      Bool.false_ne_true) space
  | comment text => exact h.add (show ¬ (Kind.comment text).isFragment from Bool.false_ne_true) .html
  | insert point addition =>
    cases point with
    | inside parent => exact h.append parent addition
    | before sibling => exact h.appendBefore sibling addition
    | misplaced table around => exact h.append (some table) addition
  | detach node =>
    rw [Site.apply] at hsound ⊢
    split at hsound
    · exact h.of_spares hsound (Document.spares_detach _ _)
    · exact h
  | moveChildren source target =>
    rw [Site.apply] at hsound ⊢
    split at hsound
    · refine h.of_spares hsound (Document.spares_tryPutAll _ fun n hn => ?_)
      exact h.fragmentsOnTop.not_isFragment (h.wellFormed.parent?_eq_some_iff.2 hn)
    · exact h

end Apart

theorem apart_run (h : d.WellFormed) (htop : d.FragmentsOnTop) (edits : List Edit) : (run d edits).Apart := by
  have hstart : (startIn d).Apart :=
    ⟨sound_startIn h, htop.create .fragment .html, fun n hn => (Array.not_mem_empty n hn).elim⟩
  exact List.foldlRecOn edits apply hstart fun s hs edit _ => hs.apply edit

end Markup.Site

/-! Lifting and grafting. -/

namespace Document

theorem WellFormed.spares_liftForest (h : d.WellFormed) (htop : d.FragmentsOnTop) (c : NodeId) :
    d.Spares (d.liftForest c).1 := by
  let forest := (d.pageContent c).filter (!d.isBlankText ·)
  have hforest (n : NodeId) (hn : n ∈ forest) : ¬ d.isFragment n := by
    exact htop.not_isFragment_of_isWithin
      (h.isWithin_of_mem_pageContent (List.mem_of_mem_filter hn))
  let apart := forest.foldl Document.detach d
  have hapart : d.Spares apart := spares_foldl_detach d forest
  have hbare : d.Spares ((apart.children c).foldl Document.discard apart) :=
    hapart.trans (.foldl fun d' _ n _ => spares_discard d' n)
  have hfull : d.Spares (forest.foldl (fun d n => d.put (.lastIn c) n)
      ((apart.children c).foldl Document.discard apart)) :=
    hbare.trans (.foldl fun _ hd' n hn =>
      spares_put _ (hd'.not_isFragment (hbare.not_isFragment (hforest n hn))))
  exact hfull.trans (spares_discardIfDrained _ c)

theorem FragmentsOnTop.graft (htop : d.FragmentsOnTop) (hother : other.FragmentsOnTop) :
    (d.graft other).FragmentsOnTop := by
  intro n hn
  by_cases hlt : n < d.fresh
  · have hsame : (d.graft other).node? n = d.node? n := by rw [node?_graft, if_pos hlt]
    rw [parent?, hsame]
    exact htop n (by rwa [isFragment, kind?, hsame] at hn)
  · obtain ⟨m, rfl⟩ := Nat.exists_eq_add_of_le' (Nat.le_of_not_lt hlt)
    rw [isFragment, kind?_graft, ← isFragment] at hn
    rw [parent?_graft, hother m hn]
    rfl

theorem fragmentsOnTop_empty : ({} : Document).FragmentsOnTop := by decide

theorem FragmentsOnTop.parse (htop : d.FragmentsOnTop) (markup : String) :
    (d.parse markup).1.FragmentsOnTop := by
  have hsite := Markup.Site.apart_run wellFormed_empty fragmentsOnTop_empty (Markup.Construction.edits markup)
  rw [parse_eq]
  exact htop.graft (hsite.fragmentsOnTop.of_spares (hsite.wellFormed.spares_liftForest hsite.fragmentsOnTop _))

/-- The nodes that are read stand in their container, so they are no fragments. -/
theorem WellFormed.not_isFragment_of_mem_parse (h : d.WellFormed) (htop : d.FragmentsOnTop)
    {markup : String} (hn : n ∈ (d.parse markup).2) : ¬ (d.parse markup).1.isFragment n :=
  (htop.parse markup).not_isFragment ((h.parse markup).2 n hn)

end Document
end DomQuery
