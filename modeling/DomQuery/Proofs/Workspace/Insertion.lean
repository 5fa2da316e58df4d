import DomQuery.Proofs.Query.Showing
import DomQuery.Proofs.Workspace.Runs

/-!
Insertions. What was visible stays visible, and what is placed at visible nodes is visible, whatever the
content is and wherever it comes from.
-/
namespace DomQuery.Workspace
open Document
variable {ws : Workspace} {dom other : DomId} {c : Collection} {content : Content} {m : NodeId}

/-- The nodes that an insertion puts somewhere: nodes of the content at the first target, and copies of
them at the others. -/
def placed (ws : Workspace) (c : Collection) (content : Content) (place : Place) : List NodeId :=
  (((ws.nodesOf c.dom content).1.document c.dom).distribute place c.nodes
    (ws.nodesOf c.dom content).2).2

theorem Sound.grows_nodesOf (h : ws.Sound) (hdom : dom < ws.documents.size)
    (hcontent : ws.HoldsContent dom content) :
    (ws.document dom).Grows ((ws.nodesOf dom content).1.document dom) := by
  have hdocument := (h.document dom).toWellFormed
  cases content with
  | markup text =>
    rw [(nodesOf_markup hdom text).2.1]
    exact (hdocument.parse text).1.grows
  | nodes nodes => exact .refl hdocument
  | collection c =>
    simp only [Workspace.nodesOf]
    split
    · exact .refl hdocument
    · rw [setDocument, document_update_self hdom]
      exact (adds_importAll hdocument (h.document c.dom).toWellFormed c.nodes).grows

theorem differsAt_nodesOf (hdom : dom < ws.documents.size) (content : Content) :
    ws.DiffersAt dom (ws.nodesOf dom content).1 := by
  cases content with
  | markup text => exact differsAt_update hdom _
  | nodes nodes => exact .refl dom ws
  | collection c =>
    simp only [Workspace.nodesOf]
    split
    · exact .refl dom ws
    · exact differsAt_update hdom _

theorem document_insert (hdom : c.dom < ws.documents.size) (content : Content) (place : Place) :
    (ws.insert c content place).document c.dom =
      (((ws.nodesOf c.dom content).1.document c.dom).distribute place c.nodes
        (ws.nodesOf c.dom content).2).1.discardScratch
        (if content.isMarkup then
          ((ws.nodesOf c.dom content).1.document c.dom).scratch? (ws.nodesOf c.dom content).2
        else none) := by
  have hsize := (differsAt_nodesOf hdom content).size_eq
  rw [insert, document_update_self (hsize.symm ▸ hdom)]

theorem document_insert_of_ne (hdom : c.dom < ws.documents.size) (content : Content) (place : Place)
    (hother : other ≠ c.dom) : (ws.insert c content place).document other = ws.document other := by
  have hsame := differsAt_nodesOf hdom content
  rw [insert, document_update (hsame.size_eq.symm ▸ hdom), if_neg hother]
  exact hsame.document_of_ne other hother

/-- An insertion at visible nodes hides nothing in any document, and all that it places can be found. -/
theorem visible_insert (h : ws.Sound) (hc : ws.Holds c.toSelection)
    (hvisible : ∀ t ∈ c.nodes, (ws.document c.dom).Visible t)
    (hcontent : ws.HoldsContent c.dom content) (place : Place) :
    (∀ dom m, (ws.document dom).Visible m → ((ws.insert c content place).document dom).Visible m) ∧
      ∀ n ∈ ws.placed c content place, ((ws.insert c content place).document c.dom).Visible n := by
  have hdom := hc.1
  have hd := h.document c.dom
  suffices hall : (∀ m, (ws.document c.dom).Visible m →
      ((ws.insert c content place).document c.dom).Visible m) ∧
      ∀ n ∈ ws.placed c content place, ((ws.insert c content place).document c.dom).Visible n by
    refine ⟨fun dom m hm => ?_, hall.2⟩
    by_cases heq : dom = c.dom
    · subst heq
      exact hall.1 m hm
    · rwa [document_insert_of_ne hdom content place heq]
  have htargets (t : NodeId) (ht : t ∈ c.nodes) := And.intro (hc.2 t ht) (hvisible t ht)
  rw [document_insert hdom, placed]
  cases hmarkup : content.isMarkup with
  | true =>
    obtain ⟨text, rfl⟩ := exists_markup hmarkup
    obtain ⟨-, hdocument, hnodes⟩ := nodesOf_markup hdom text
    obtain ⟨hadds, hscratch⟩ := hd.toWellFormed.parse text
    rw [if_pos rfl, hdocument, hnodes]
    exact hd.visible_distribute_markup hadds hscratch place htargets
  | false =>
    have hgrows := h.grows_nodesOf hdom hcontent
    obtain ⟨-, hevolves, hnodes⟩ := h.nodesOf (E := fun _ _ => False) hdom hcontent hmarkup
    have hgrown {m : NodeId} (hm : (ws.document c.dom).Visible m) := hd.visible_of_grows hgrows hm
    obtain ⟨hkept, hplaced⟩ := hevolves.sound.visible_distribute place hnodes
      fun t ht => (htargets t ht).imp (hevolves.isAllocated t) hgrown
    exact ⟨fun m hm => hkept m (hgrown hm), hplaced⟩

def twoRoots : List Operation :=
  [.change 0 (.create .fragment .html), .change 0 (.create (.element { tag := "div" }) .html),
    .change 0 (.create (.element { tag := "p" }) .html),
    .change 0 (.create (.element { tag := "i" }) .html), .change 0 (.move (.lastIn 0) 1),
    .change 0 (.move (.lastIn 0) 2), .change 0 (.move (.lastIn 1) 3), .change 0 (.register [1, 2])]

/-- The second root goes below the first one, which is refused there; next to the first root there are
copies of both afterwards. -/
theorem visible_insert_twoRoots :
    let ws := ({} : Workspace).run twoRoots
    let c : Collection := { dom := 0, nodes := [3, 1] }
    (ws.document 0).liveRoots = [1, 2] ∧ ws.placed c (.nodes [2, 1]) .before = [2, 4, 5] ∧
      (∀ dom m, (ws.document dom).Visible m →
        ((ws.insert c (.nodes [2, 1]) .before).document dom).Visible m) ∧
      ∀ n ∈ [2, 4, 5], ((ws.insert c (.nodes [2, 1]) .before).document 0).Visible n := by
  intro ws c
  have hws : ws.Sound := sound_empty.run (by decide +kernel)
  have hplaced : ws.placed c (.nodes [2, 1]) .before = [2, 4, 5] := by decide +kernel
  have hc : ws.Holds c.toSelection := by decide +kernel
  have hcontent : ws.HoldsContent c.dom (.nodes [2, 1]) := by decide +kernel
  have hvisible := visible_insert hws hc (by decide +kernel) hcontent .before
  rw [hplaced] at hvisible
  exact ⟨by decide +kernel, hplaced, hvisible⟩

end DomQuery.Workspace
