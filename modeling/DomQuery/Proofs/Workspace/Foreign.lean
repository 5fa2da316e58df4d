import DomQuery.Proofs.Document.Distribution
import DomQuery.Proofs.Workspace.Copying

/-!
Content from another document. What is placed are copies, made for the document of the targets, and the
document that they are taken from cannot tell that they were made.
-/
namespace DomQuery.Workspace
open Document
variable {ws ws' : Workspace} {dom : DomId} {c c' t : Collection} {ns : List NodeId}
  {d source : Document}

theorem update_eq_setDocument (hdom : dom < ws.documents.size) (f : Document → Document) :
    ws.update dom f = ws.setDocument dom (f (ws.document dom)) := by
  have hmodify : ws.documents.modify dom f = ws.documents.modify dom fun _ => f (ws.document dom) := by
    refine Array.ext (by simp) fun i hi hi' => ?_
    rw [Array.getElem_modify, Array.getElem_modify]
    split
    · rename_i heq
      subst heq
      simp [document, hdom]
    · rfl
  rw [setDocument, update, update, hmodify]

theorem importAll_alike (h : d.WellFormed) (hsource : source.WellFormed)
    (hns : ∀ n ∈ ns, source.isAllocated n) :
    List.Forall₂ (source.Alike (importAll d source ns).1) ns (importAll d source ns).2 ∧
      (importAll d source ns).2.Nodup ∧
      ∀ n ∈ (importAll d source ns).2, (importAll d source ns).1.parent? n = none := by
  induction ns generalizing d with
  | nil => exact ⟨.nil, List.nodup_nil, nofun⟩
  | cons n ns ih =>
    obtain ⟨hn, hrest⟩ := List.forall_mem_cons.1 hns
    have hadds := h.adds_importNode hsource n
    have hcopied := h.copied_plant hsource hn
    have hmore := adds_importAll hadds.wellFormed hsource ns
    obtain ⟨halike, hnodup, hbare⟩ := ih hadds.wellFormed hrest
    have hcopy := (hadds.of_mem _ List.mem_cons_self).2
    rw [importAll]
    refine ⟨.cons ?_ halike, List.nodup_cons.2 ⟨fun hmem => ?_, hnodup⟩,
      List.forall_mem_cons.2 ⟨?_, hbare⟩⟩
    · exact hsource.alike_trans hcopied.alike (hmore.grows.alike hadds.wellFormed hcopy)
    · exact Nat.not_lt_of_le (hmore.of_mem _ hmem).1 (lt_fresh hcopy)
    · exact (hmore.grows.parent?_of_lt (lt_fresh hcopy)).trans hcopied.parent?_eq_none

/-- `c` has been inserted at the nodes of `t` in another document, and `c'` is what has been placed. -/
structure CopiesTo (ws ws' : Workspace) (c t : Collection) (place : Place) (c' : Collection) : Prop where
  differsAt : ws.DiffersAt t.dom ws'
  source : ws'.document c.dom = ws.document c.dom
  dom_eq : c'.dom = t.dom
  back_eq : c'.back = c
  kept : ∀ n, (ws.document t.dom).isAllocated n →
    (ws'.document t.dom).data? n = (ws.document t.dom).data? n ∧
      (ws'.document t.dom).parent? n = (ws.document t.dom).parent? n
  /-- The result holds the nodes that have come in below those that were there, and no others. -/
  mem_iff : ∀ n, n ∈ c'.nodes ↔ ¬ (ws.document t.dom).isAllocated n ∧
    ∃ p, (ws.document t.dom).isAllocated p ∧ (ws'.document t.dom).parent? n = some p
  alike : ∀ n ∈ c'.nodes, (ws'.document t.dom).isAllocated n ∧
    ∃ m ∈ c.nodes, (ws.document c.dom).Alike (ws'.document t.dom) m n
  /-- There is one row for each target that takes something. -/
  rows : ∃ rows, c'.nodes = rows.flatten ∧
    List.Forall₂ (Row (ws.document c.dom) (ws.document t.dom) (ws'.document t.dom) place c.nodes)
      (t.nodes.filter (!(ws.document t.dom).refuses place ·)) rows ∧
    (t.nodes.Nodup → Rows (ws.document c.dom) (ws'.document t.dom) place c.nodes
      (t.nodes.filter (!(ws.document t.dom).refuses place ·)) rows)

/-- A collection from another document is brought in and then handed out, from whichever side. -/
theorem insert_foreign (hdom : t.dom < ws.documents.size) (hne : c.dom ≠ t.dom) (place : Place)
    {read given : Document × List NodeId}
    (hread : read = importAll (ws.document t.dom) (ws.document c.dom) c.nodes)
    (hgiven : given = read.1.distribute place t.nodes read.2) :
    ws.insertAt c (.collection t) place =
        .ok (ws.insert t (.collection c) place, c.deriveIn t.dom given.2) ∧
      ws.DiffersAt t.dom (ws.insert t (.collection c) place) ∧
      (ws.insert t (.collection c) place).document t.dom = given.1 := by
  have hcontent : ws.nodesOf t.dom (.collection c) = (ws.setDocument t.dom read.1, read.2) := by
    rw [nodesOf, if_neg hne, ← hread]
  have hbrought : (ws.setDocument t.dom read.1).document t.dom = read.1 := document_update_self hdom _
  have hdiffers : ws.DiffersAt t.dom (ws.setDocument t.dom read.1) := differsAt_update hdom _
  have hdom' : t.dom < (ws.setDocument t.dom read.1).documents.size := hdiffers.size_eq ▸ hdom
  have hinsert : ws.insert t (.collection c) place =
      (ws.setDocument t.dom read.1).setDocument t.dom given.1 := by
    rw [insert, hcontent]
    refine (update_eq_setDocument hdom' _).trans ?_
    rw [hbrought, hgiven]
    rfl
  rw [hinsert]
  refine ⟨?_, hdiffers.trans (differsAt_update hdom' _), document_update_self hdom' _⟩
  refine bind_eq_ok.2 ⟨(t.dom, t.nodes), rfl, ?_⟩
  dsimp only
  rw [hcontent]
  dsimp only
  rw [hbrought, ← hgiven]
  rfl

/-- A collection can be inserted at the nodes of a collection of another document, and it makes no difference
from which side. Its own document stays the same. What comes in is new there, like the nodes of the
collection at every depth, and makes up the result, from which one step leads back. -/
theorem insertAt_copies (hsource : (ws.document c.dom).WellFormed)
    (hdocument : (ws.document t.dom).WellFormed) (hne : c.dom ≠ t.dom) (hc : ws.Holds c.toSelection)
    (ht : ws.Holds t.toSelection) (place : Place) :
    ∃ c', ws.insertAt c (.collection t) place = .ok (ws.insert t (.collection c) place, c') ∧
      ws.CopiesTo (ws.insert t (.collection c) place) c t place c' := by
  obtain ⟨halike, hnodup, hbare⟩ := importAll_alike hdocument hsource hc.2
  obtain ⟨rows, hplaced, hsupplies⟩ := (adds_importAll hdocument hsource c.nodes).supplies_distribute
    hdocument hsource hbare hnodup halike ht.2 place
  obtain ⟨hinsert, hdiffers, hafter⟩ := insert_foreign ht.1 hne place rfl rfl
  have hnodes : (c.deriveIn t.dom rows.flatten).nodes = rows.flatten := distinct_of_nodup hsupplies.nodup
  rw [hplaced] at hinsert
  rw [← hafter] at hsupplies
  have hreceives := hsupplies.receives
  refine ⟨_, hinsert, hdiffers, hdiffers.document_of_ne c.dom hne, rfl, rfl, fun n hn => ?_,
    fun n => ?_, fun n hn => ?_, rows, hnodes, hsupplies.row, fun hdistinct => ?_⟩
  · exact ⟨hreceives.data? n (lt_fresh hn), hreceives.parent? n (lt_fresh hn)⟩
  · rw [hnodes]
    constructor
    · intro hn
      obtain ⟨s, hs, row, hmem, hrow⟩ := hsupplies.exists_row hn
      obtain ⟨hs, htakes⟩ := List.mem_filter.1 hs
      obtain ⟨p, hp, hallocated⟩ := hdocument.exists_host (ht.2 s hs) (by simpa using htakes)
      refine ⟨fun hold => ?_, p, hallocated, (hrow.parent? n hmem).trans hp⟩
      exact Nat.not_lt_of_le (hrow.new n hmem).1 (lt_fresh hold)
    · rintro ⟨hnot, p, hallocated, hp⟩
      refine hsupplies.mem n p hp (Nat.le_of_not_lt fun hlt => hnot ?_) (lt_fresh hallocated)
      exact (isAllocated_congr (hreceives.data? n hlt)).1 (isAllocated_of_parent? hp)
  · rw [hnodes] at hn
    obtain ⟨s, -, row, hmem, hrow⟩ := hsupplies.exists_row hn
    obtain ⟨m, hm, hlike⟩ := exists_of_forall₂ hrow.alike hmem
    exact ⟨(hrow.new n hmem).2, m, hm, hlike⟩
  · exact hsupplies.rows_of_nodup (hdistinct.filter _)

/-- A list goes to a paragraph and to a text of another document. Both documents number their nodes alike, and
the text refuses the list. -/
theorem insertAt_copies_list :
    let ws : Workspace := { documents := #[{ slots := #[
        some { kind := .fragment, children := [1] },
        some { kind := .element { tag := "ul" }, parent := some 0, children := [2] },
        some { kind := .element { tag := "li" }, parent := some 1 }], roots := [1] },
      { slots := #[
        some { kind := .fragment, children := [1, 2] },
        some { kind := .element { tag := "p" }, parent := some 0 },
        some { kind := .text "and", parent := some 0 }], roots := [1] }] }
    let c : Collection := { dom := 0, nodes := [1] }
    let t : Collection := { dom := 1, nodes := [2, 1] }
    (ws.document 0).WellFormed ∧ (ws.document 1).WellFormed ∧ (ws.document 1).refuses .append 2 ∧
      ∃ c', ws.insertAt c (.collection t) .append = .ok (ws.insert t (.collection c) .append, c') ∧
        (ws.insert t (.collection c) .append).document 0 = ws.document 0 ∧ c'.dom = 1 ∧ c'.back = c ∧
        c'.nodes = [5] ∧ (ws.document 0).Alike ((ws.insert t (.collection c) .append).document 1) 1 5 := by
  intro ws c t
  have h₀ : (ws.document 0).WellFormed := by decide +kernel
  have h₁ : (ws.document 1).WellFormed := by decide +kernel
  obtain ⟨c', hinsert, hcopies⟩ := @insertAt_copies ws c t h₀ h₁ (by decide +kernel) (by decide +kernel)
    (by decide +kernel) .append
  have hnodes : c'.nodes = [5] := by
    have hrun : (ws.insertAt c (.collection t) .append).toOption.map (·.2.nodes) = some [5] := by
      decide +kernel
    rw [hinsert] at hrun
    exact Option.some.inj hrun
  obtain ⟨-, m, hm, halike⟩ := hcopies.alike 5 (hnodes ▸ List.mem_cons_self)
  obtain rfl := List.mem_singleton.1 hm
  exact ⟨h₀, h₁, by decide +kernel, c', hinsert, hcopies.source, hcopies.dom_eq, hcopies.back_eq, hnodes,
    halike⟩

end DomQuery.Workspace
