import DomQuery.Proofs.Matching.Assignment

/-!
The early exit. A chain with a part that never holds is given up before it is searched. The search would
fail as well, whatever the combinators and wherever the part stands, so that the exit changes no answer,
in a `:not` either.
-/
namespace DomQuery

theorem Part.isUnmatchable_iff {part : Part} : part.isUnmatchable ↔ ∃ text, part = .unmatchable text := by
  cases part <;> simp [Part.isUnmatchable]

theorem Chain.isUnmatchable_iff {chain : Chain} :
    chain.isUnmatchable ↔ ∃ parts ∈ chain.compounds, ∃ text, .unmatchable text ∈ parts := by
  have hany (parts : Compound) :
      parts.any Part.isUnmatchable ↔ ∃ text, .unmatchable text ∈ parts := by
    simp only [List.any_eq_true, Part.isUnmatchable_iff]
    exact ⟨fun ⟨_, hpart, text, heq⟩ => ⟨text, heq ▸ hpart⟩, fun ⟨text, hpart⟩ => ⟨_, hpart, text, rfl⟩⟩
  induction chain with
  | compound parts => simp only [isUnmatchable, compounds, List.mem_singleton, exists_eq_left, hany]
  | step left combinator parts ih =>
    simp only [isUnmatchable, compounds, Bool.or_eq_true, ih, hany, List.mem_append,
      List.mem_singleton, or_and_right, exists_or, exists_eq_left]

namespace Document

mutual

/-- Matching as it would be without the exit: every chain is searched, at every depth of `:not`. -/
def partHoldsPlainly (d : Document) (n : NodeId) (e : Element) : Part → Bool
  | .not alternatives => !d.selectorHoldsPlainly n alternatives
  | part => d.partHolds n e part

def partsHoldPlainly (d : Document) (n : NodeId) (e : Element) : List Part → Bool
  | [] => true
  | part :: parts => d.partHoldsPlainly n e part && d.partsHoldPlainly n e parts

def chainHoldsPlainly (d : Document) (stop : Option NodeId) (n : NodeId) : Chain → Bool
  | .compound parts => (d.element? n).any fun e => d.partsHoldPlainly n e parts
  | .step left combinator parts =>
    (d.element? n).any (fun e => d.partsHoldPlainly n e parts) &&
      (d.related stop n combinator).any fun m => d.chainHoldsPlainly stop m left

def selectorHoldsPlainly (d : Document) (n : NodeId) : List Chain → Bool
  | [] => false
  | chain :: chains => d.chainHoldsPlainly none n chain || d.selectorHoldsPlainly n chains

end

mutual

theorem partHoldsPlainly_eq (d : Document) (n : NodeId) (e : Element) :
    ∀ part, d.partHoldsPlainly n e part = d.partHolds n e part
  | .not alternatives => by rw [partHoldsPlainly, partHolds, selectorHoldsPlainly_eq d n alternatives]
  | .universal | .tag _ | .id _ | .className _ | .attribute _ | .position _ | .empty | .root
  | .contains _ | .unmatchable _ => rfl

theorem partsHoldPlainly_eq (d : Document) (n : NodeId) (e : Element) :
    ∀ parts, d.partsHoldPlainly n e parts = d.partsHold n e parts
  | [] => rfl
  | part :: parts => by
    rw [partsHoldPlainly, partsHold, partHoldsPlainly_eq d n e part, partsHoldPlainly_eq d n e parts]

theorem chainHoldsPlainly_eq (d : Document) (stop : Option NodeId) (n : NodeId) :
    ∀ chain, d.chainHoldsPlainly stop n chain = d.chainFits stop n chain
  | .compound parts => by
    have hparts (e : Element) := partsHoldPlainly_eq d n e parts
    simp only [chainHoldsPlainly, chainFits_compound, compoundHolds, hparts]
  | .step left combinator parts => by
    have hparts (e : Element) := partsHoldPlainly_eq d n e parts
    have hleft (m : NodeId) := chainHoldsPlainly_eq d stop m left
    rw [chainHoldsPlainly, chainFits]
    simp only [hparts, hleft]
    cases d.element? n <;> rfl

theorem selectorHoldsPlainly_eq (d : Document) (n : NodeId) :
    ∀ selector, d.selectorHoldsPlainly n selector = d.selectorHolds n selector
  | [] => rfl
  | chain :: chains => by
    rw [selectorHoldsPlainly, selectorHolds, chainHoldsPlainly_eq d none n chain,
      selectorHoldsPlainly_eq d n chains, ← chainHoldsWithin, chainHoldsWithin_eq]

end

/-- With a part that never holds anywhere in a chain the search fails, and a `:not` that lists the chain
holds unless another one of the list does. So the exit is taken only where the search fails, and matching
is the same without it. -/
theorem exit_changes_nothing (d : Document) (stop : Option NodeId) (n : NodeId) (chain : Chain) :
    ((∃ parts ∈ chain.compounds, ∃ text, .unmatchable text ∈ parts) →
      d.chainFits stop n chain = false ∧
        ∀ e before after, d.partHolds n e (.not (before ++ chain :: after)) ↔
          ∀ other ∈ before ++ after, d.chainHolds n other = false) ∧
      d.chainHoldsWithin stop n chain = d.chainFits stop n chain ∧
      d.chainHoldsWithin stop n chain = d.chainHoldsPlainly stop n chain := by
  refine ⟨fun hchain => ?_, chainHoldsWithin_eq, ?_⟩
  · have hfails (stop : Option NodeId) : d.chainFits stop n chain = false := by
      rw [Bool.eq_false_iff]
      exact fun hfits => not_isUnmatchable_of_chainFits hfits (Chain.isUnmatchable_iff.2 hchain)
    -- in a `:not` the search has no stop
    have hnot : d.chainHolds n chain = false := by rw [chainHolds, chainHoldsWithin_eq, hfails]
    refine ⟨hfails stop, fun e before after => ?_⟩
    rw [partHolds, selectorHolds_eq, Bool.not_eq_true', List.any_append, List.any_cons, hnot,
      Bool.false_or, ← List.any_append, List.any_eq_false]
    simp only [Bool.not_eq_true]
  · rw [chainHoldsPlainly_eq, chainHoldsWithin_eq]

/-- The chain `div! p > em`, with two compounds that fit to the right of the part that does not, alone in
a `:not` and beside `em`. -/
theorem exit_changes_nothing_leftmost :
    let d : Document := { slots := #[
      some { kind := .element { tag := "div" }, children := [1] },
      some { kind := .element { tag := "p" }, parent := some 0, children := [2] },
      some { kind := .element { tag := "em" }, parent := some 1 }] }
    let chain : Chain := .step (.step (.compound [.tag "div", .unmatchable "!"]) .descendant [.tag "p"])
      .child [.tag "em"]
    let e : Element := { tag := "em" }
    (∃ parts ∈ chain.compounds, ∃ text, .unmatchable text ∈ parts) ∧
      d.chainFits none 2 chain = false ∧ d.partHolds 2 e (.not [chain]) = true ∧
      d.partHolds 2 e (.not [.compound [.tag "em"], chain]) = false := by
  intro d chain e
  have hchain : ∃ parts ∈ chain.compounds, ∃ text, .unmatchable text ∈ parts :=
    ⟨[.tag "div", .unmatchable "!"], by simp [chain, Chain.compounds], "!", by simp⟩
  have hem : d.chainHolds 2 (.compound [.tag "em"]) = true := by decide +kernel
  obtain ⟨hfails, hnot⟩ := (exit_changes_nothing d none 2 chain).1 hchain
  refine ⟨hchain, hfails, (hnot e [] []).2 (by simp), Bool.eq_false_iff.2 fun hholds => ?_⟩
  have hother := (hnot e [.compound [.tag "em"]] []).1 hholds _ List.mem_cons_self
  exact Bool.false_ne_true (hother.symm.trans hem)

end Document
end DomQuery
