import DomQuery.Selector.Basic

/-!
Chains from left to right: a first compound, then one step after the other. Lists of chains nest in
each other through `:not`.
-/
namespace DomQuery

namespace Chain

@[induction_eliminator]
theorem induction {motive : Chain → Prop} (compound : ∀ parts, motive (.compound parts))
    (step : ∀ left combinator parts, motive left → motive (.step left combinator parts)) :
    ∀ chain, motive chain
  | .compound parts => compound parts
  | .step left combinator parts =>
    step left combinator parts (induction compound step left)

theorem length_compounds (chain : Chain) : chain.compounds.length = chain.steps.length + 1 := by
  induction chain with
  | compound parts => rfl
  | step left combinator parts ih => simp [compounds, steps, ih]

theorem sizeOf_lt_of_mem_compounds {parts : Compound} {chain : Chain}
    (h : parts ∈ chain.compounds) : sizeOf parts < sizeOf chain := by
  induction chain with
  | compound parts' =>
    obtain rfl := List.mem_singleton.1 h
    rw [Chain.compound.sizeOf_spec]
    omega
  | step left k parts' ih =>
    rw [Chain.step.sizeOf_spec]
    cases List.mem_append.1 h with
    | inl h =>
      have hlt := ih h
      omega
    | inr h =>
      obtain rfl := List.mem_singleton.1 h
      omega

end Chain

namespace Selector

/-- The list stands in a `:not` of the other one, but in none inside of it. -/
def Nests (selector alternatives : List Chain) : Prop :=
  ∃ chain ∈ selector, ∃ parts ∈ chain.compounds, .not alternatives ∈ parts

theorem sizeOf_lt_of_nests {selector alternatives : List Chain} (h : Nests selector alternatives) :
    sizeOf alternatives < sizeOf selector := by
  obtain ⟨chain, hchain, parts, hparts, hpart⟩ := h
  have hlt := List.sizeOf_lt_of_mem hchain
  have hlt' := Chain.sizeOf_lt_of_mem_compounds hparts
  have hlt'' := List.sizeOf_lt_of_mem hpart
  rw [Part.not.sizeOf_spec] at hlt''
  omega

theorem nests_induction {motive : List Chain → Prop}
    (nest : ∀ selector, (∀ alternatives, Nests selector alternatives → motive alternatives) →
      motive selector) (selector : List Chain) : motive selector := by
  induction hsize : sizeOf selector using Nat.strongRecOn generalizing selector with
  | ind size ih =>
    subst hsize
    exact nest selector fun alternatives h => ih _ (sizeOf_lt_of_nests h) alternatives rfl

end Selector
end DomQuery
