import DomQuery.Proofs.Document.Appending
import DomQuery.Proofs.Workspace.Evolution

/-!
New content for the nodes of a collection. The nodes may stand one in the other, in any order: what is taken
out when one of them is emptied gets its content all the same, and keeps it.
-/
namespace DomQuery.Workspace
open Document
variable {ws : Workspace} {c : Collection}

theorem document_setMarkup (hdom : c.dom < ws.documents.size) (markup : String) :
    let elements := c.nodes.filter (ws.document c.dom).isElement
    let parsed := (elements.foldl clearChildren (ws.document c.dom)).parse markup
    (ws.setMarkup c markup).document c.dom =
      (parsed.1.distribute .append elements parsed.2).1.discardScratch (parsed.1.scratch? parsed.2) := by
  rw [setMarkup, document_update_self hdom]

/-- Every node of the collection has the text, and every element of it the forest that is read from the
markup: the first one the nodes that were read, and each other one new nodes like them. The former children
have no parent any more. A node that is not in the collection keeps its data and its children, and so do, with
markup, the texts and comments in it. -/
theorem contents_replaced (h : (ws.document c.dom).WellFormed) (hc : ws.Holds c.toSelection)
    (hnodup : c.nodes.Nodup) :
    let d := ws.document c.dom
    let elements := c.nodes.filter d.isElement
    (∀ text, d.Empties ((ws.setText c text).document c.dom) c.nodes ∧
        ∀ n ∈ c.nodes, ((ws.setText c text).document c.dom).textContent n = text) ∧
      ∀ markup,
        let parsed := (elements.foldl clearChildren d).parse markup
        let d' := (ws.setMarkup c markup).document c.dom
        d.Empties d' elements ∧ parsed.1.Filled d' parsed.2 elements ∧
          ∀ n, d.isAllocated n → d'.data? n = d.data? n := by
  intro d elements
  refine ⟨fun text => ?_, fun markup => ?_⟩
  · obtain ⟨hempties, hwritten⟩ := h.foldl_setTextContent hc.2 text
    rw [setText, document_update_self hc.1]
    refine ⟨hempties, fun n hn => ?_⟩
    exact hempties.wellFormed.textContent_of_written (hempties.isAllocated n (hc.2 n hn)) (hwritten n hn)
  · intro parsed d'
    have helements (e : NodeId) (he : e ∈ elements) : d.isAllocated e ∧ ¬ d.isLeaf e :=
      have helement := List.of_mem_filter he
      ⟨isAllocated_of_isElement helement, not_isLeaf_of_isElement helement⟩
    obtain ⟨hcleared, hempty⟩ := h.empties_foldl_clearChildren fun e he => (helements e he).1
    obtain ⟨hadds, hscratch⟩ := hcleared.wellFormed.parse markup
    have hlifted := hcleared.wellFormed.lifted_parse markup
    obtain ⟨hsame, hfilled⟩ := hadds.filled hscratch (hnodup.filter _) hlifted.nodup fun e he => by
      obtain ⟨hallocated, hleaf⟩ := helements e he
      refine ⟨hcleared.isAllocated e hallocated, ?_, hempty e he⟩
      rwa [hcleared.isLeaf_eq (lt_fresh hallocated) fun hboth => hleaf hboth.2]
    have hd' : d' = (parsed.1.distribute .append elements parsed.2).1.discardScratch
        (parsed.1.scratch? parsed.2) := document_setMarkup hc.1 markup
    rw [← hd'] at hsame hfilled
    have hempties := hcleared.followed hsame
    refine ⟨hempties, hfilled, fun n hn => hempties.data? n (lt_fresh hn) fun hboth => ?_⟩
    exact (helements n hboth.1).2 hboth.2

/-- The list comes after one of its items and before the text in it. -/
theorem contents_replaced_nested :
    let ws : Workspace := { documents := #[{ slots := #[
      some { kind := .element { tag := "ul" }, children := [1, 2] },
      some { kind := .element { tag := "li" }, parent := some 0, children := [3] },
      some { kind := .element { tag := "li" }, parent := some 0 },
      some { kind := .text "one", parent := some 1 }], roots := [0] }] }
    let c : Collection := { dom := 0, nodes := [1, 0, 3] }
    (ws.document 0).WellFormed ∧
      (((ws.setText c "two").document 0).textContent 1 = "two" ∧
        ((ws.setText c "two").document 0).textContent 0 = "two" ∧
        ((ws.setText c "two").document 0).textContent 3 = "two" ∧
        ((ws.setText c "two").document 0).parent? 1 = none) ∧
      List.Forall₂ ((([1, 0].foldl clearChildren (ws.document 0)).parse "<b>x</b>y").1.Alike
          ((ws.setMarkup c "<b>x</b>y").document 0))
        (([1, 0].foldl clearChildren (ws.document 0)).parse "<b>x</b>y").2
        (((ws.setMarkup c "<b>x</b>y").document 0).children 0) ∧
      ((ws.setMarkup c "<b>x</b>y").document 0).data? 3 = some (.text "one", .html) := by
  intro ws c
  have h : (ws.document 0).WellFormed := by decide +kernel
  obtain ⟨htext, hmarkup⟩ := @contents_replaced ws c h (by decide +kernel) (by decide +kernel)
  obtain ⟨hempties, hwritten⟩ := htext "two"
  obtain ⟨-, hfilled, hdata⟩ := hmarkup "<b>x</b>y"
  refine ⟨h, ⟨hwritten 1 (by decide), hwritten 0 (by decide), hwritten 3 (by decide), ?_⟩, ?_, ?_⟩
  · exact (hempties.parent? 1 (by decide +kernel)).trans (by decide +kernel)
  · exact hfilled.alike 0 (by decide +kernel)
  · exact (hdata 3 (by decide +kernel)).trans (by decide +kernel)

end DomQuery.Workspace
