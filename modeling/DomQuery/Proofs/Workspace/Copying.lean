import DomQuery.Proofs.Document.Cloning
import DomQuery.Proofs.Document.Order
import DomQuery.Proofs.Workspace.Evolution

/-!
Deep copies, in the same document or into another one. A copy is like its original at every depth, it is
made of new nodes only, and nothing that was there before can tell that it was made.
-/
namespace DomQuery
namespace Document
variable {d d' source : Document} {n m c : NodeId}

/-- The node `c` of `d'` is the top of a copy of the subtree of `n`, and that copy is all that sets `d'`
apart from `d`. -/
structure Copied (source : Document) (n : NodeId) (d d' : Document) (c : NodeId) : Prop where
  parent?_eq_none : d'.parent? c = none
  alike : source.Alike d' n c
  /-- The copy is made of the new nodes, and all of them are in it. -/
  liesIn_iff : ∀ m, d'.LiesIn m c ↔ d'.isAllocated m ∧ ¬ d.isAllocated m
  /-- No tree that was there has a node in common with the copy. -/
  top_ne : ∀ m k, d.isAllocated m → d'.LiesIn k c → d'.top m ≠ d'.top k
  /-- Data, parent and children are as they were. -/
  node? : ∀ m, d.isAllocated m → d'.node? m = d.node? m
  siblings : ∀ m, d.isAllocated m →
    d'.preceding m = d.preceding m ∧ d'.following m = d.following m
  roots : d'.roots = d.roots

/-- Copying with a stack makes a copy too, which is like the one that is there. -/
def Stepwise (read : Document → Document) (source : Document) (n : NodeId) (d d' : Document) (c : NodeId) : Prop :=
  ∃ e, CopiesInSteps read d n e ∧ Copied source n d e d.fresh ∧ d'.Alike e c d.fresh

theorem Grows.siblings (h : d.Grows d') (hd : d.WellFormed) (hm : d.isAllocated m) :
    d'.preceding m = d.preceding m ∧ d'.following m = d.following m := by
  have hbrood : d'.brood m = d.brood m := by
    rw [brood, brood, h.parent?_of_lt (lt_fresh hm)]
    cases hp : d.parent? m with
    | none => rfl
    | some p => exact h.children_of_lt (lt_fresh (hd.isAllocated_parent hp))
  rw [preceding, following, hbrood]
  exact ⟨rfl, rfl⟩

theorem WellFormed.copied_of_adds (h : d.WellFormed) (hadds : d.Adds d' [c]) (hparent : d'.parent? c = none)
    (hbelow : ∀ m, d.fresh ≤ m → m < d'.fresh → d'.LiesIn m c) (halike : source.Alike d' n c) :
    Copied source n d d' c := by
  obtain ⟨hle, hallocated⟩ := hadds.of_mem c List.mem_cons_self
  have hnew (m : NodeId) : d'.LiesIn m c ↔ d'.isAllocated m ∧ ¬ d.isAllocated m := by
    constructor
    · exact fun hm => ⟨hm.isAllocated hallocated, fun hold =>
        Nat.not_lt_of_le (hadds.grows.le_of_liesIn hm hle) (lt_fresh hold)⟩
    · rintro ⟨hm, hnot⟩
      refine hbelow m (Nat.le_of_not_lt fun hlt => hnot ?_) (lt_fresh hm)
      rwa [Document.isAllocated, hadds.grows.node? m hlt] at hm
  exact {
    parent?_eq_none := hparent
    alike := halike
    liesIn_iff := hnew
    top_ne := fun m k hm hk heq => by
      have hlies := hadds.wellFormed.liesIn_top m
      rw [heq, hadds.wellFormed.top_eq_of_liesIn hk hparent] at hlies
      exact ((hnew m).1 hlies).2 hm
    node? := fun m hm => hadds.grows.node? m (lt_fresh hm)
    siblings := fun m hm => hadds.grows.siblings h hm
    roots := hadds.grows.roots }

section Copies
variable (h : d.WellFormed) (hsource : source.WellFormed) (hn : source.isAllocated n)
include h hsource hn

theorem WellFormed.copied_plant :
    Copied source n d (d.plant (source.treeAt n)).1 (d.plant (source.treeAt n)).2 := by
  have hplanted := planted_plantUnder d none (hsource.tidy_treeAt n)
  have halike := hsource.alike_plantUnder hn (Nat.le_add_right ..) d none _ fun _ _ _ => rfl
  refine h.copied_of_adds (hplanted.adds h) (hplanted.of_mem _ List.mem_cons_self).2.2 (fun m hle hlt => ?_)
    halike
  obtain ⟨root, hroot, hlies⟩ := hplanted.exists_liesIn hle hlt
  rwa [List.mem_singleton.1 hroot] at hlies

/-- The stack runs empty, and what it leaves is a copy as well, which is like any other one. -/
theorem WellFormed.stepwise {read : Document → Document}
    (hread : ∀ d', d.Grows d' → ∀ m, source.isAllocated m → (read d').node? m = source.node? m)
    (hcopied : Copied source n d d' c) (hd' : d'.WellFormed) : Stepwise read source n d d' c := by
  obtain ⟨e, origin, missing, hcopying, hturns⟩ :=
    (copying_start h hread hn).iterate_copyTurn hsource hread
  have halike : source.Alike e n d.fresh := hcopying.origin_top ▸ hcopying.alike hsource rfl (Nat.le_refl _)
    (lt_fresh (hcopying.adds.of_mem _ List.mem_cons_self).2)
  exact ⟨e, ⟨_, hturns⟩,
    h.copied_of_adds hcopying.adds hcopying.parent?_top hcopying.liesIn_top halike,
    hd'.alike_trans (hsource.alike_symm hcopied.alike) halike⟩

end Copies
end Document

namespace Workspace
open Document
variable {ws : Workspace} {dom : DomId}

/-- A copy can be taken of every node, in its own document or from another one. It is like the node at
every depth, apart from all that is there, and every document but the one with the copy stays the
same. To copy node by node with a stack comes to an end and gives the same copy, up to the numbers of the
nodes, also where the document that is read is the one that is written. -/
theorem copies_are_apart (h : (ws.document dom).WellFormed) (hdom : dom < ws.documents.size) :
    (∀ n, (ws.document dom).isAllocated n → ∃ ws' c,
      ws.perform (.change dom (.copy n true)) = .ok (ws', { dom, nodes := [c] }) ∧
        Copied (ws.document dom) n (ws.document dom) (ws'.document dom) c ∧ ws.DiffersAt dom ws' ∧
        Stepwise id (ws.document dom) n (ws.document dom) (ws'.document dom) c) ∧
    ∀ other n, (ws.document other).WellFormed → (ws.document other).isAllocated n → ∃ ws' c,
      ws.perform (.importNode dom other n) = .ok (ws', { dom, nodes := [c] }) ∧
        Copied (ws.document other) n (ws.document dom) (ws'.document dom) c ∧
        ws.DiffersAt dom ws' ∧
        Stepwise (fun _ => ws.document other) (ws.document other) n (ws.document dom) (ws'.document dom) c := by
  refine ⟨fun n hn => ⟨_, _, rfl, ?_⟩, fun other n hother hn => ⟨_, _, rfl, ?_⟩⟩
  · rw [setDocument, document_update_self hdom]
    have hcopied := h.copied_plant h hn
    refine ⟨hcopied, differsAt_update hdom _, h.stepwise h hn (fun d' hd' m hm => ?_) hcopied ?_⟩
    · exact hd'.node? m (lt_fresh hm)
    · exact (h.adds_copy n true).wellFormed
  · rw [setDocument, document_update_self hdom]
    have hcopied := h.copied_plant hother hn
    exact ⟨hcopied, differsAt_update hdom _, h.stepwise hother hn (fun _ _ _ _ => rfl) hcopied
      (h.adds_importNode hother n).wellFormed⟩

/-- A paragraph with two children is copied in its document, and out of it into another one. -/
theorem copies_are_apart_paragraph :
    let ws : Workspace := { documents := #[{ slots := #[
        some { kind := .fragment, children := [1] },
        some {
          kind := .element { tag := "p", attributes := [("id", "a")] }
          parent := some 0
          children := [2, 3] },
        some { kind := .text "and", parent := some 1 },
        some { kind := .element { tag := "b" }, parent := some 1 }], roots := [1] },
      { slots := #[some { kind := .comment "mark" }] }] }
    (ws.document 0).WellFormed ∧ (ws.document 1).WellFormed ∧
      (∃ ws' c, ws.perform (.change 0 (.copy 1 true)) = .ok (ws', { dom := 0, nodes := [c] }) ∧
        (ws.document 0).Alike (ws'.document 0) 1 c ∧ (ws'.document 0).children 1 = [2, 3] ∧
        ∃ e, CopiesInSteps id (ws.document 0) 1 e ∧ (ws'.document 0).Alike e c 4) ∧
      ∃ ws' c, ws.perform (.importNode 1 0 1) = .ok (ws', { dom := 1, nodes := [c] }) ∧
        (ws.document 0).Alike (ws'.document 1) 1 c ∧ (ws'.document 1).top 0 ≠ (ws'.document 1).top c := by
  intro ws
  have h₀ : (ws.document 0).WellFormed := by decide +kernel
  have h₁ : (ws.document 1).WellFormed := by decide +kernel
  obtain ⟨_, here, hcopy, hcopied, -, e, hsteps, -, hlike⟩ :=
    (copies_are_apart h₀ (by decide +kernel)).1 1 (by decide +kernel)
  obtain ⟨_, there, himport, himported, -⟩ :=
    (copies_are_apart h₁ (by decide +kernel)).2 0 1 h₀ (by decide +kernel)
  refine ⟨h₀, h₁, ⟨_, here, hcopy, hcopied.alike, ?_, e, hsteps, hlike⟩, _, there, himport, himported.alike, ?_⟩
  · rw [children, hcopied.node? 1 (by decide +kernel), ← children]
    decide +kernel
  · exact himported.top_ne 0 there (by decide +kernel) (.inl rfl)

end Workspace
end DomQuery
