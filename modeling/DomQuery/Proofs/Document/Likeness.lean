import DomQuery.Proofs.Document.Planting
import Mathlib.Data.List.Forall2

/-!
Alike subtrees. Two nodes, of one document or of two, are alike when they hold the same data and their
children are alike one by one. What is planted for a subtree is like it, in every document that keeps
the new nodes.
-/
namespace DomQuery.Document
variable {d d' d'' e source : Document} {n n' n'' m : NodeId} {parent : Option NodeId} {cs : List NodeId}

/-- The subtrees of two nodes are the same, up to the numbers of the nodes. -/
inductive Alike (d d' : Document) : NodeId → NodeId → Prop
  | node {n n' : NodeId} : d'.data? n' = d.data? n →
    List.Forall₂ (Alike d d') (d.children n) (d'.children n') → Alike d d' n n'

theorem Alike.data? (h : d.Alike d' n n') : d'.data? n' = d.data? n := by
  cases h with
  | node hdata _ => exact hdata

theorem Alike.children (h : d.Alike d' n n') :
    List.Forall₂ (d.Alike d') (d.children n) (d'.children n') := by
  cases h with
  | node _ hchildren => exact hchildren

theorem exists_of_forall₂ {α β : Type} {R : α → β → Prop} {xs : List α} {ys : List β} {y : β}
    (h : List.Forall₂ R xs ys) (hy : y ∈ ys) : ∃ x ∈ xs, R x y := by
  induction h with
  | nil => cases hy
  | @cons x z xs ys hR _ ih =>
    rcases List.mem_cons.1 hy with rfl | hy
    · exact ⟨x, List.mem_cons_self, hR⟩
    · obtain ⟨x', hx', hR'⟩ := ih hy
      exact ⟨x', List.mem_cons_of_mem x hx', hR'⟩

theorem forall₂_compose {R S T : NodeId → NodeId → Prop} {xs ys zs : List NodeId}
    (hR : List.Forall₂ R xs ys) (hS : List.Forall₂ S ys zs)
    (h : ∀ x ∈ xs, ∀ y z, R x y → S y z → T x z) : List.Forall₂ T xs zs := by
  induction hR generalizing zs with
  | nil =>
    cases hS
    exact .nil
  | cons hxy _ ih =>
    cases hS with
    | cons hyz hrest =>
      exact .cons (h _ List.mem_cons_self _ _ hxy hyz)
        (ih hrest fun x hx => h x (List.mem_cons_of_mem _ hx))

theorem WellFormed.alike_trans (h : d.WellFormed) (hleft : d.Alike d' n n')
    (hright : d'.Alike d'' n' n'') : d.Alike d'' n n'' := by
  induction n using h.descend generalizing n' n'' with
  | step n ih =>
    refine .node (hright.data?.trans hleft.data?) ?_
    exact forall₂_compose hleft.children hright.children fun c hc _ _ hone htwo => ih c hc hone htwo

theorem WellFormed.alike_trans_all {ns ns' ns'' : List NodeId} (h : d.WellFormed)
    (hleft : List.Forall₂ (d.Alike d') ns ns') (hright : List.Forall₂ (d'.Alike d'') ns' ns'') :
    List.Forall₂ (d.Alike d'') ns ns'' :=
  forall₂_compose hleft hright fun _ _ _ _ hone htwo => h.alike_trans hone htwo

theorem WellFormed.alike_symm (h : d.WellFormed) (halike : d.Alike d' n n') : d'.Alike d n' n := by
  induction n using h.descend generalizing n' with
  | step n ih =>
    have hrow := (List.forall₂_and_left (d.children n) _).2 ⟨fun _ hc => hc, halike.children⟩
    exact .node halike.data?.symm (hrow.imp fun c _ hpair => ih c hpair.1 hpair.2).flip

theorem WellFormed.alike_of_same (h : d.WellFormed)
    (hsame : ∀ m, d.LiesIn m n → d'.data? m = d.data? m ∧ d'.children m = d.children m) :
    d.Alike d' n n := by
  induction n using h.descend with
  | step n ih =>
    obtain ⟨hdata, hchildren⟩ := hsame n (.inl rfl)
    refine .node hdata ?_
    rw [hchildren, List.forall₂_same]
    intro c hc
    exact ih c hc fun m hm => hsame m (hm.trans (.inr (h.isWithin_of_mem_children hc)))

theorem WellFormed.liesIn_congr (h : d.WellFormed) (h' : d'.WellFormed)
    (hsame : ∀ m, d.LiesIn m n → d'.children m = d.children m) : d'.LiesIn m n ↔ d.LiesIn m n := by
  constructor
  · intro hwalk
    induction liesIn_iff.1 hwalk using Relation.ReflTransGen.head_induction_on with
    | refl => exact .inl rfl
    | @head a b hstep hreach ih =>
      have hb := ih (liesIn_iff.2 hreach)
      have hab := h'.parent?_eq_some_iff.1 hstep
      rw [hsame b hb] at hab
      exact .trans (.inr (h.isWithin_of_mem_children hab)) hb
  · intro hwalk
    induction liesIn_iff.1 hwalk using Relation.ReflTransGen.head_induction_on with
    | refl => exact .inl rfl
    | @head a b hstep hreach ih =>
      have hab := h.parent?_eq_some_iff.1 hstep
      rw [← hsame b (liesIn_iff.2 hreach)] at hab
      exact .trans (.inr (h'.isWithin_of_mem_children hab)) (ih (liesIn_iff.2 hreach))

theorem WellFormed.alike_row_of_same {ns row : List NodeId} (h : d.WellFormed) (h' : d'.WellFormed)
    (h'' : d''.WellFormed) (halike : List.Forall₂ (d.Alike d') ns row)
    (hsame : ∀ r ∈ row, ∀ m, d'.LiesIn m r → d''.data? m = d'.data? m ∧ d''.children m = d'.children m) :
    List.Forall₂ (d.Alike d'') ns row ∧ ∀ r ∈ row, ∀ m, d''.LiesIn m r → d'.LiesIn m r := by
  refine ⟨h.alike_trans_all halike (List.forall₂_same.2 fun r hr => ?_), fun r hr m hm => ?_⟩
  · exact h'.alike_of_same (hsame r hr)
  · exact (h'.liesIn_congr h'' fun m hm => (hsame r hr m hm).2).1 hm

/-! Planting what was read. -/

/-- The document `e` still has the nodes that came in between `d` and `d'`. -/
def KeepsNew (d d' e : Document) : Prop := ∀ m, d.fresh ≤ m → m < d'.fresh → e.node? m = d'.node? m

section Planting
variable (h : source.WellFormed)
include h

theorem WellFormed.tidy_trees (bound : Nat) (cs : List NodeId) :
    ∀ t ∈ cs.map (source.treeWithin bound), t.Tidy := by
  intro t ht
  obtain ⟨c, -, rfl⟩ := List.mem_map.1 ht
  exact h.tidy_treeWithin bound c

theorem WellFormed.alike_plantAllUnder {bound : Nat}
    (hcs : ∀ c ∈ cs, ∀ (d : Document) (parent : Option NodeId) (e : Document),
      d.KeepsNew (d.plantUnder parent (source.treeWithin bound c)).1 e →
      source.Alike e c (d.plantUnder parent (source.treeWithin bound c)).2)
    (d : Document) (parent : NodeId) (e : Document)
    (he : d.KeepsNew (d.plantAllUnder parent (cs.map (source.treeWithin bound))).1 e) :
    List.Forall₂ (source.Alike e) cs
      (d.plantAllUnder parent (cs.map (source.treeWithin bound))).2 := by
  induction cs generalizing d with
  | nil => exact .nil
  | cons c cs ih =>
    have hfirst := planted_plantUnder d (some parent) (h.tidy_treeWithin bound c)
    have hrest := planted_plantAllUnder (d.plantUnder (some parent) (source.treeWithin bound c)).1
      parent (h.tidy_trees bound cs)
    rw [List.map_cons, plantAllUnder] at he ⊢
    refine .cons (hcs c List.mem_cons_self d (some parent) e fun m hle hlt => ?_)
      (ih (fun m hm => hcs m (List.mem_cons_of_mem c hm)) _ fun m hle hlt => ?_)
    · exact (he m hle (Nat.lt_of_lt_of_le hlt hrest.fresh_le)).trans (hrest.node? m hlt)
    · exact he m (Nat.le_trans hfirst.fresh_le hle) hlt

/-- The bound covers the paths below `n`, so all of the subtree is planted. -/
theorem WellFormed.alike_plantUnder (hn : source.isAllocated n) {bound : Nat}
    (hbound : source.slots.size ≤ bound + (source.ancestors n).length)
    (d : Document) (parent : Option NodeId) (e : Document)
    (he : d.KeepsNew (d.plantUnder parent (source.treeWithin bound n)).1 e) :
    source.Alike e n (d.plantUnder parent (source.treeWithin bound n)).2 := by
  induction n using h.descend generalizing bound d parent e with
  | step n ih =>
    have hdepth := h.length_ancestors_lt (n := n) (Nat.zero_lt_of_lt (lt_fresh hn))
    obtain ⟨bound, rfl⟩ : ∃ k, bound = k + 1 := Nat.exists_eq_add_one.2 (by omega)
    obtain ⟨node, hnode⟩ := Option.isSome_iff_exists.1 hn
    rw [treeWithin, plantUnder] at he ⊢
    let start := d.add { kind := (source.kind? n).getD .fragment, ns := source.ns n, parent }
    have hbelow := planted_plantAllUnder start d.fresh (h.tidy_trees bound (source.children n))
    have hbound' (c : NodeId) (hc : c ∈ source.children n) :
        source.slots.size ≤ bound + (source.ancestors c).length := by
      rw [h.ancestors_of_parent? (h.parent?_eq_some_iff.2 hc), List.length_cons]
      omega
    have hlist := h.alike_plantAllUnder
      (fun c hc => ih c hc (h.isAllocated_child hc) (hbound' c hc)) start d.fresh e
    change d.KeepsNew ((start.plantAllUnder d.fresh _).1.modify d.fresh _) e at he
    change source.Alike e n d.fresh
    generalize start.plantAllUnder d.fresh _ = planted at he hbelow hlist
    obtain ⟨d', cs⟩ := planted
    have hlt := hbelow.fresh_le
    rw [fresh_add] at hlt
    have hroot : d'.node? d.fresh = some { kind := node.kind, ns := node.ns, parent } := by
      rw [hbelow.node? _ (by simp [start]), node?_add, if_pos rfl, Document.kind?, ns, hnode]
      rfl
    have hcopy := he d.fresh (Nat.le_refl _) (by rwa [fresh_modify])
    rw [node?_modify, if_pos rfl, hroot] at hcopy
    refine .node ?_ ?_
    · rw [Document.data?, hcopy, Document.data?, hnode]
      rfl
    · have hchildren : e.children d.fresh = cs := by
        rw [Document.children, hcopy]
        rfl
      rw [hchildren]
      refine hlist fun m hle hm => ?_
      rw [fresh_add] at hle
      have hkept := he m (Nat.le_of_succ_le hle) (by rwa [fresh_modify])
      rwa [node?_modify, if_neg (Nat.ne_of_gt hle)] at hkept

end Planting

end DomQuery.Document
