import DomQuery.Proofs.Document.Distribution
import DomQuery.Proofs.Workspace.Evolution

/-!
A collection inserted at several targets. Everything that is placed is in the result: the nodes of the
collection, which went to the first target, and then the copies for the other ones.
-/
namespace DomQuery.Workspace
open Document
variable {ws : Workspace} {c : Collection} {target : Target} {place : Place}
  {targets originals : List NodeId}

theorem length_flatten_of_rows {d d' : Document} {rows : List (List NodeId)}
    (h : Rows d d' place originals targets rows) :
    rows.flatten.length = originals.length * targets.length := by
  induction h with
  | nil => rfl
  | cons hrow _ ih =>
    rw [List.flatten_cons, List.length_append, ← hrow.2.length_eq, ih, List.length_cons, Nat.mul_add_one,
      Nat.add_comm]

/-- Where all targets take what they are to get, the first one gets the nodes of the collection, and each
other one new nodes, which are like those of the collection at every depth. At each target they stand in a
row, in the order of the collection, and no node that was there is another one afterwards. -/
theorem insertAt_distributes (h : (ws.document c.dom).WellFormed) (hdom : c.dom < ws.documents.size)
    (hnodes : c.nodes.Nodup) (hallocated : ∀ n ∈ c.nodes, (ws.document c.dom).isAllocated n)
    (hapart : ∀ n ∈ c.nodes, ∀ m ∈ c.nodes, ¬ (ws.document c.dom).isWithin m n)
    (hresolve : ws.resolve c.dom target = .ok (c.dom, targets)) (hsome : targets ≠ [])
    (hdistinct : targets.Nodup)
    (htargets : ∀ t ∈ targets, (ws.document c.dom).isAllocated t ∧ ¬ (ws.document c.dom).refuses place t)
    (hout : ∀ n ∈ c.nodes, ∀ t ∈ targets, ¬ (ws.document c.dom).LiesIn t n) :
    ∃ ws' c' copies, ws.insertAt c target place = .ok (ws', c') ∧
      c'.nodes = c.nodes ++ copies.flatten ∧ c'.nodes.Nodup ∧
      c'.nodes.length = c.nodes.length * targets.length ∧
      Rows (ws.document c.dom) (ws'.document c.dom) place c.nodes targets (c.nodes :: copies) ∧
      (∀ n ∈ copies.flatten,
        ¬ (ws.document c.dom).isAllocated n ∧ (ws'.document c.dom).isAllocated n) ∧
      (∀ n, (ws.document c.dom).isAllocated n →
        (ws'.document c.dom).data? n = (ws.document c.dom).data? n) ∧
      ws.DiffersAt c.dom ws' := by
  obtain ⟨first, rest, rfl⟩ := List.exists_cons_of_ne_nil hsome
  obtain ⟨copies, hplaced, hrows, hnodup, hnew, hdata⟩ :=
    h.distribute_rows hnodes hallocated hapart hdistinct htargets hout
  have hcontent : ws.nodesOf c.dom (.collection c) = (ws, c.nodes) := by
    rw [nodesOf, if_pos rfl]
  have hinsert : ws.insertAt c target place = .ok
      (ws.setDocument c.dom ((ws.document c.dom).distribute place (first :: rest) c.nodes).1,
        c.deriveIn c.dom (c.nodes ++ copies.flatten)) := by
    rw [← hplaced]
    refine bind_eq_ok.2 ⟨_, hresolve, ?_⟩
    dsimp only
    rw [hcontent]
    rfl
  have hall : (c.deriveIn c.dom (c.nodes ++ copies.flatten)).nodes = c.nodes ++ copies.flatten :=
    distinct_of_nodup hnodup
  have hdocument := document_update_self hdom
    fun _ => ((ws.document c.dom).distribute place (first :: rest) c.nodes).1
  refine ⟨_, _, copies, hinsert, hall, ?_, ?_, ?_⟩
  · rwa [hall]
  · rw [hall, ← List.flatten_cons, length_flatten_of_rows hrows]
  · rw [setDocument, hdocument]
    exact ⟨hrows, hnew, hdata, differsAt_update hdom _⟩

/-- The `b` of the first list item goes to the second one, and a copy of it to the list that it came
from. -/
theorem insertAt_distributes_nested :
    let ws : Workspace := { documents := #[{ slots := #[
      some { kind := .element { tag := "ul" }, children := [1, 2] },
      some { kind := .element { tag := "li" }, parent := some 0, children := [3] },
      some { kind := .element { tag := "li" }, parent := some 0 },
      some { kind := .element { tag := "b" }, parent := some 1, children := [4] },
      some { kind := .text "and", parent := some 3 }], roots := [0] }] }
    let c : Collection := { dom := 0, nodes := [3] }
    (ws.document 0).WellFormed ∧ ∃ ws' c' copies, ws.insertAt c (.nodes [2, 0]) .append = .ok (ws', c') ∧
      c'.nodes = [3] ++ copies.flatten ∧ c'.nodes.length = 2 ∧
      Rows (ws.document 0) (ws'.document 0) .append [3] [2, 0] ([3] :: copies) ∧
      (ws'.document 0).data? 3 = (ws.document 0).data? 3 := by
  intro ws c
  have h : (ws.document 0).WellFormed := by decide +kernel
  obtain ⟨ws', c', copies, hinsert, hnodes, -, hlength, hrows, -, hdata, -⟩ :=
    @insertAt_distributes ws c (.nodes [2, 0]) .append [2, 0] h (by decide +kernel) (by decide +kernel)
      (by decide +kernel) (by decide +kernel) rfl (by decide +kernel) (by decide +kernel)
      (by decide +kernel) (by decide +kernel)
  exact ⟨h, ws', c', copies, hinsert, hnodes, hlength, hrows, hdata 3 (by decide +kernel)⟩

end DomQuery.Workspace
