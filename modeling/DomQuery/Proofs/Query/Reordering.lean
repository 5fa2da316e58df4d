import DomQuery.Proofs.Matching.Assignment
import DomQuery.Proofs.Query.Roots

/-!
Order inside a selector. The parts of a compound may come in any order and the chains of a list in any
order and any number of times, here and in every `:not`: such selectors hold of the same elements, and a
query cannot tell one from the other.
-/
namespace DomQuery

mutual

/-- The same part, or a `:not` of a reordered list. -/
inductive Part.Reorders : Part → Part → Prop
  | same (part : Part) : Part.Reorders part part
  | not {s t : List Chain} : Selector.Reorders s t → Part.Reorders (.not s) (.not t)

inductive Compound.Reorders : List Part → List Part → Prop
  | perm {ps qs : List Part} : ps.Perm qs → Compound.Reorders ps qs
  | cons {p q : Part} {ps qs : List Part} :
    Part.Reorders p q → Compound.Reorders ps qs → Compound.Reorders (p :: ps) (q :: qs)
  | trans {ps qs rs : List Part} :
    Compound.Reorders ps qs → Compound.Reorders qs rs → Compound.Reorders ps rs

/-- Compounds stay where they are, and so do the combinators between them. -/
inductive Chain.Reorders : Chain → Chain → Prop
  | compound {ps qs : List Part} :
    Compound.Reorders ps qs → Chain.Reorders (.compound ps) (.compound qs)
  | step {left left' : Chain} {combinator : Combinator} {ps qs : List Part} :
    Chain.Reorders left left' → Compound.Reorders ps qs →
      Chain.Reorders (.step left combinator ps) (.step left' combinator qs)

inductive Selector.Reorders : List Chain → List Chain → Prop
  /-- The same chains, in any order and any number. -/
  | listed {s t : List Chain} : (∀ chain, chain ∈ s ↔ chain ∈ t) → Selector.Reorders s t
  | cons {chain chain' : Chain} {s t : List Chain} :
    Chain.Reorders chain chain' → Selector.Reorders s t →
      Selector.Reorders (chain :: s) (chain' :: t)
  | trans {s t u : List Chain} :
    Selector.Reorders s t → Selector.Reorders t u → Selector.Reorders s u

end

namespace Document
variable {d : Document} {n : NodeId} {e : Element} {ps qs : List Part} {s t : List Chain}

theorem partsHold_of_mem_iff (h : ∀ part, part ∈ ps ↔ part ∈ qs) :
    d.partsHold n e ps = d.partsHold n e qs := by
  rw [Bool.eq_iff_iff, partsHold_iff, partsHold_iff]
  exact forall_congr' fun part => imp_congr_left (h part)

theorem any_of_mem_iff {holds : Chain → Bool} (h : ∀ chain, chain ∈ s ↔ chain ∈ t) :
    s.any holds = t.any holds := by
  rw [Bool.eq_iff_iff, List.any_eq_true, List.any_eq_true]
  exact exists_congr fun chain => and_congr_left' (h chain)

section Reorders
variable (d)

mutual

theorem partHolds_of_reorders {p q : Part} (n : NodeId) (e : Element) :
    Part.Reorders p q → d.partHolds n e p = d.partHolds n e q
  | .same _ => rfl
  | .not h => by
    rw [partHolds, partHolds, selectorHolds_eq, selectorHolds_eq]
    exact congrArg _ (any_chainHolds_of_reorders none n h)

theorem partsHold_of_reorders {ps qs : List Part} (n : NodeId) (e : Element) :
    Compound.Reorders ps qs → d.partsHold n e ps = d.partsHold n e qs
  | .perm h => partsHold_of_mem_iff fun _ => h.mem_iff
  | .cons hpart hparts => by
    rw [partsHold, partsHold, partHolds_of_reorders n e hpart, partsHold_of_reorders n e hparts]
  | .trans h h' => (partsHold_of_reorders n e h).trans (partsHold_of_reorders n e h')

theorem chainFits_of_reorders {chain chain' : Chain} (stop : Option NodeId) (n : NodeId) :
    Chain.Reorders chain chain' → d.chainFits stop n chain = d.chainFits stop n chain'
  | .compound h => by
    have hparts (e : Element) := partsHold_of_reorders n e h
    simp only [chainFits, hparts]
  | .step hleft h => by
    -- the compound is searched for at the node, the chain on its left at all that are related to it
    have hparts (e : Element) := partsHold_of_reorders n e h
    have hchain (m : NodeId) := chainFits_of_reorders stop m hleft
    simp only [chainFits, hparts, hchain]

theorem any_chainHolds_of_reorders {s t : List Chain} (stop : Option NodeId) (n : NodeId) :
    Selector.Reorders s t → s.any (d.chainHoldsWithin stop n) = t.any (d.chainHoldsWithin stop n)
  | .listed h => any_of_mem_iff h
  | .cons hchain h => by
    rw [List.any_cons, List.any_cons, any_chainHolds_of_reorders stop n h, chainHoldsWithin_eq,
      chainHoldsWithin_eq, chainFits_of_reorders stop n hchain]
  | .trans h h' => (any_chainHolds_of_reorders stop n h).trans (any_chainHolds_of_reorders stop n h')

end

end Reorders

/-- However the parts of compounds and the chains of lists are ordered and repeated, in a selector and in
its `:not`s at any depth, a query finds the same nodes in the same order. -/
theorem query_of_reorders (d : Document) (roots : List NodeId) (scope : Scope)
    (h : Selector.Reorders s t) : d.query roots s scope = d.query roots t scope := by
  have hroot : d.queryRoot s scope = d.queryRoot t scope := by
    funext root
    exact List.filter_congr fun n _ => any_chainHolds_of_reorders d (scope.stop root) n h
  rw [query.eq_def, query.eq_def, queryRoots, queryRoots, hroot]

/-- `p.a:not(.b#c, :root), em` and `em, :not(:root, #c.b, :root).a.p, em`. -/
theorem query_of_reorders_nested :
    let d : Document := { slots := #[
      some { kind := .element { tag := "div" }, children := [1, 2, 3] },
      some { kind := .element { tag := "p", attributes := [("class", "b a"), ("id", "c")] },
             parent := some 0 },
      some { kind := .element { tag := "em" }, parent := some 0 },
      some { kind := .element { tag := "P", attributes := [("class", "A b")] }, parent := some 0 }] }
    let s : Selector := [
      .compound [.tag "p", .className "a",
        .not [.compound [.className "b", .id "c"], .compound [.root]]],
      .compound [.tag "em"]]
    let t : Selector := [
      .compound [.tag "em"],
      .compound [.not [.compound [.root], .compound [.id "c", .className "b"], .compound [.root]],
        .className "a", .tag "p"],
      .compound [.tag "em"]]
    Selector.Reorders s t ∧ d.query [0] s .inclusive = [2, 3] ∧ d.query [0] t .inclusive = [2, 3] := by
  intro d s t
  have hlisted (x : Chain) (y : Chain) : Selector.Reorders [x, y] [y, x, y] :=
    .listed fun chain => by simp only [List.mem_cons, List.not_mem_nil]; tauto
  have hnot : Selector.Reorders [.compound [.className "b", .id "c"], .compound [.root]]
      [.compound [.root], .compound [.id "c", .className "b"], .compound [.root]] :=
    .trans (.cons (.compound (.perm (.swap ..))) (.listed fun _ => Iff.rfl)) (hlisted ..)
  have hparts : Compound.Reorders
      [.tag "p", .className "a", .not [.compound [.className "b", .id "c"], .compound [.root]]]
      [.not [.compound [.root], .compound [.id "c", .className "b"], .compound [.root]],
        .className "a", .tag "p"] :=
    .trans (.perm (List.reverse_perm _).symm) (.cons (.not hnot) (.perm (.refl _)))
  have h : Selector.Reorders s t :=
    .trans (.cons (.compound hparts) (.listed fun _ => Iff.rfl)) (hlisted ..)
  have hquery : d.query [0] s .inclusive = [2, 3] := by decide +kernel
  exact ⟨h, hquery, (query_of_reorders d [0] .inclusive h).symm.trans hquery⟩

end Document
end DomQuery
