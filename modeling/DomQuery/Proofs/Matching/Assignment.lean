import DomQuery.Document.Matching
import DomQuery.Proofs.Document.WellFormed
import DomQuery.Proofs.Selector.Tree
import Mathlib.Data.List.Forall2

/-!
Chains as relations. A chain selects a node if elements can be assigned to its compounds, the node to
the last one, such that neighbours are related as the combinator between them says. The search finds
such an assignment whenever there is one.
-/
namespace DomQuery

namespace Document
variable {d : Document} {stop : Option NodeId} {n m a b : NodeId} {chain left : Chain}
  {combinator : Combinator} {parts : Compound} {nodes : List NodeId}

def StepsUp (d : Document) (stop : Option NodeId) (n m : NodeId) : Prop :=
  d.parentElement? n = some m ∧ some m ≠ stop

/-- Whether `m` may stand to the left of a combinator and `n` to its right. -/
def Linked (d : Document) (stop : Option NodeId) (n m : NodeId) : Combinator → Prop
  | .child => d.StepsUp stop n m
  | .descendant => Relation.TransGen (d.StepsUp stop) n m
  | .nextSibling => (d.preceding n).find? d.isElement = some m
  | .subsequentSibling => m ∈ d.preceding n ∧ d.isElement m

/-- One element for each compound of a chain, in the order of the compounds. -/
structure Assigns (d : Document) (stop : Option NodeId) (chain : Chain) (n : NodeId)
    (nodes : List NodeId) : Prop where
  last : nodes.getLast? = some n
  fits : List.Forall₂ (fun m parts => d.compoundHolds m parts) nodes chain.compounds
  linked : ∀ i combinator parts, chain.steps[i]? = some (combinator, parts) →
    ∀ a b, nodes[i]? = some a → nodes[i + 1]? = some b → d.Linked stop b a combinator

theorem step_parentBelow? : Climb.Step (d.parentBelow? stop) = d.StepsUp stop := by
  funext n m
  simp [Climb.Step, parentBelow?, StepsUp, Option.filter_eq_some_iff]

theorem parentsBelow_eq_trail (bound : Nat) (n : NodeId) :
    d.parentsBelow stop bound n = Climb.trail (d.parentBelow? stop) bound n := by
  induction bound generalizing n with
  | zero => rfl
  | succ bound ih =>
    rw [parentsBelow, Climb.trail]
    cases d.parentBelow? stop n with
    | none => rfl
    | some p => simp only [ih]

theorem mem_related_iff : m ∈ d.related stop n combinator ↔ d.Linked stop n m combinator := by
  cases combinator with
  | child => simp [related, parentBelow?, Linked, StepsUp, Option.filter_eq_some_iff]
  | descendant =>
    have hsize (a b : NodeId) (h : d.parentBelow? stop a = some b) : a < d.slots.size :=
      lt_size_of_parent? (Option.filter_eq_some_iff.1 (Option.filter_eq_some_iff.1 h).1).1
    rw [related, parentsBelow_eq_trail, Climb.mem_trail_iff hsize, Linked, step_parentBelow?]
  | nextSibling =>
    rw [related, precedingElements, Linked, ← List.head?_filter]
    cases (d.preceding n).filter d.isElement with
    | nil => simp
    | cons x xs => simp [eq_comm]
  | subsequentSibling => simp [related, precedingElements, Linked]

theorem chainFits_compound : d.chainFits stop n (.compound parts) = d.compoundHolds n parts := by
  rw [chainFits, compoundHolds]
  cases d.element? n <;> rfl

theorem chainFits_step :
    d.chainFits stop n (.step left combinator parts) ↔
      d.compoundHolds n parts ∧ ∃ m, d.Linked stop n m combinator ∧ d.chainFits stop m left := by
  rw [chainFits, compoundHolds, Bool.and_eq_true, List.any_eq_true]
  simp only [mem_related_iff]
  cases d.element? n <;> rfl

theorem assigns_compound :
    d.Assigns stop (.compound parts) n nodes ↔ nodes = [n] ∧ d.compoundHolds n parts := by
  constructor
  · intro h
    have hfits := h.fits
    have hlast := h.last
    cases hfits with
    | cons hm htail =>
      cases htail with
      | nil =>
        obtain rfl := Option.some.inj hlast
        exact ⟨rfl, hm⟩
  · rintro ⟨rfl, hn⟩
    exact ⟨rfl, .cons hn .nil, fun i _ _ hi => by simp [Chain.steps] at hi⟩

theorem Assigns.length_eq (h : d.Assigns stop chain n nodes) :
    nodes.length = chain.steps.length + 1 := by
  rw [← chain.length_compounds]
  exact h.fits.length_eq

theorem Assigns.step (h : d.Assigns stop left m nodes) (hlink : d.Linked stop n m combinator)
    (hn : d.compoundHolds n parts) :
    d.Assigns stop (.step left combinator parts) n (nodes ++ [n]) := by
  have hlen := h.length_eq
  refine ⟨by simp, List.rel_append h.fits (.cons hn .nil), ?_⟩
  intro i k ps hstep a b ha hb
  rw [Chain.steps] at hstep
  rcases Nat.lt_trichotomy i left.steps.length with hi | hi | hi
  · rw [List.getElem?_append_left hi] at hstep
    rw [List.getElem?_append_left (by omega)] at ha hb
    exact h.linked i k ps hstep a b ha hb
  · -- the new element stands to the right of the last one so far
    have hk : combinator = k := by simpa [hi] using congrArg (Option.map Prod.fst) hstep
    have hm : m = a := by
      have hlast := h.last
      rw [List.getLast?_eq_getElem?, hlen, Nat.add_sub_cancel, ← hi] at hlast
      rw [List.getElem?_append_left (by omega), hlast] at ha
      exact Option.some.inj ha
    have hn : n = b := by
      rw [List.getElem?_append_right (by omega), hlen, hi, Nat.sub_self] at hb
      exact Option.some.inj hb
    subst hk hm hn
    exact hlink
  · rw [List.getElem?_eq_none (by simp; omega)] at hstep
    exact absurd hstep (by simp)

theorem Assigns.unstep (h : d.Assigns stop (.step left combinator parts) n nodes) :
    ∃ m before, nodes = before ++ [n] ∧ d.Assigns stop left m before ∧
      d.Linked stop n m combinator ∧ d.compoundHolds n parts := by
  have hlen := h.length_eq
  simp only [Chain.steps, List.length_append, List.length_singleton] at hlen
  obtain ⟨before, rfl⟩ : ∃ before, nodes = before ++ [n] := by
    obtain ⟨hne, hlast⟩ := List.getLast?_eq_some_iff.1 h.last
    exact ⟨hne, hlast⟩
  have hbefore : before.length = left.steps.length + 1 := by simpa using hlen
  obtain ⟨m, hm⟩ : ∃ m, before.getLast? = some m := by
    rw [List.getLast?_eq_getElem?, List.getElem?_eq_getElem (by omega)]
    exact ⟨_, rfl⟩
  have hfits := h.fits
  rw [Chain.compounds] at hfits
  have hleft := List.forall₂_take_append _ _ _ hfits
  have hright := List.forall₂_drop_append _ _ _ hfits
  have hcompounds : left.compounds.length = before.length := by rw [left.length_compounds, hbefore]
  rw [hcompounds, List.take_left'] at hleft
  rw [hcompounds, List.drop_left'] at hright
  all_goals try rfl
  refine ⟨m, before, rfl, ⟨hm, hleft, ?_⟩, ?_, ?_⟩
  · intro i k ps hstep a b ha hb
    have hi : i < left.steps.length := (List.getElem?_eq_some_iff.1 hstep).1
    apply h.linked i k ps
    · rw [Chain.steps, List.getElem?_append_left hi]
      exact hstep
    · rw [List.getElem?_append_left (by omega)]
      exact ha
    · rw [List.getElem?_append_left (by omega)]
      exact hb
  · apply h.linked left.steps.length combinator parts
    · rw [Chain.steps, List.getElem?_append_right (Nat.le_refl _), Nat.sub_self]
      rfl
    · rw [List.getElem?_append_left (by omega), ← hm, List.getLast?_eq_getElem?, hbefore,
        Nat.add_sub_cancel]
    · rw [List.getElem?_append_right (by omega), hbefore, Nat.sub_self]
      rfl
  · cases hright with
    | cons hn _ => exact hn

theorem chainFits_iff : d.chainFits stop n chain ↔ ∃ nodes, d.Assigns stop chain n nodes := by
  induction chain generalizing n with
  | compound parts => simp [chainFits_compound, assigns_compound]
  | step left combinator parts ih =>
    rw [chainFits_step]
    constructor
    · rintro ⟨hn, m, hlink, hm⟩
      obtain ⟨before, hbefore⟩ := ih.1 hm
      exact ⟨before ++ [n], hbefore.step hlink hn⟩
    · rintro ⟨nodes, h⟩
      obtain ⟨m, before, -, hbefore, hlink, hn⟩ := h.unstep
      exact ⟨hn, m, hlink, ih.2 ⟨before, hbefore⟩⟩

/-! A part that never holds. -/

theorem partsHold_iff {e : Element} :
    d.partsHold n e parts ↔ ∀ part ∈ parts, d.partHolds n e part := by
  induction parts with
  | nil => simp [partsHold]
  | cons part parts ih => simp [partsHold, ih]

theorem not_isUnmatchable_of_compoundHolds (h : d.compoundHolds n parts) :
    ¬ parts.any Part.isUnmatchable := by
  intro hany
  obtain ⟨part, hmem, hpart⟩ := List.any_eq_true.1 hany
  obtain ⟨e, -, hparts⟩ := (Option.any_eq_true _ _).1 h
  have hholds := partsHold_iff.1 hparts part hmem
  cases part with
  | unmatchable text => simp [partHolds] at hholds
  | _ => simp [Part.isUnmatchable] at hpart

/-- The search alone answers as it does behind the early exit. -/
theorem not_isUnmatchable_of_chainFits (h : d.chainFits stop n chain) : ¬ chain.isUnmatchable := by
  induction chain generalizing n with
  | compound parts =>
    rw [chainFits_compound] at h
    exact not_isUnmatchable_of_compoundHolds h
  | step left combinator parts ih =>
    obtain ⟨hn, m, -, hm⟩ := chainFits_step.1 h
    rw [Chain.isUnmatchable, Bool.or_eq_true, not_or]
    exact ⟨ih hm, not_isUnmatchable_of_compoundHolds hn⟩

theorem chainHoldsWithin_eq : d.chainHoldsWithin stop n chain = d.chainFits stop n chain := by
  rw [chainHoldsWithin]
  by_cases h : d.chainFits stop n chain
  · simp [h, not_isUnmatchable_of_chainFits h]
  · simp [h]

theorem selectorHolds_eq {selector : Selector} :
    d.selectorHolds n selector = selector.any (d.chainHolds n) := by
  induction selector with
  | nil => rw [selectorHolds, List.any_nil]
  | cons chain chains ih =>
    rw [selectorHolds, ih, List.any_cons]
    rfl

/-! Staying below the node that stops the walks. -/

namespace WellFormed

theorem parent?_of_mem_preceding (h : d.WellFormed) (hm : m ∈ d.preceding n) :
    d.parent? m = d.parent? n := by
  have hbrood : m ∈ d.brood n :=
    (List.takeWhile_sublist _).subset (List.mem_reverse.1 hm)
  rw [brood] at hbrood
  cases hn : d.parent? n with
  | none => simp [hn] at hbrood
  | some p =>
    rw [hn] at hbrood
    exact h.parent?_eq_some_iff.2 hbrood

theorem isWithin_of_mem_preceding (h : d.WellFormed) (hm : m ∈ d.preceding n)
    (hn : d.isWithin n a) : d.isWithin m a := by
  obtain ⟨p, hp⟩ := exists_parent?_of_isWithin hn
  have hmp : d.parent? m = some p := (h.parent?_of_mem_preceding hm).trans hp
  exact (isWithin_iff_of_parent? hmp).2 ((isWithin_iff_of_parent? hp).1 hn)

end WellFormed

theorem isWithin_of_stepsUp (hm : d.StepsUp (some a) n m) (hn : d.isWithin n a) :
    d.isWithin m a := by
  obtain ⟨hparent, hne⟩ := hm
  have hp : d.parent? n = some m := (Option.filter_eq_some_iff.1 hparent).1
  exact ((isWithin_iff_of_parent? hp).1 hn).resolve_left fun he => hne (congrArg some he)

theorem WellFormed.isWithin_of_linked (h : d.WellFormed) (hm : d.Linked (some a) n m combinator)
    (hn : d.isWithin n a) : d.isWithin m a := by
  cases combinator with
  | child => exact isWithin_of_stepsUp hm hn
  | descendant =>
    induction hm using Relation.TransGen.head_induction_on with
    | single hm => exact isWithin_of_stepsUp hm hn
    | head hm _ ih => exact ih (isWithin_of_stepsUp hm hn)
  | nextSibling => exact h.isWithin_of_mem_preceding (List.mem_of_find?_eq_some hm) hn
  | subsequentSibling => exact h.isWithin_of_mem_preceding hm.1 hn

theorem Assigns.isWithin (h : d.Assigns (some a) chain n nodes) (hwf : d.WellFormed)
    (hn : d.isWithin n a) : ∀ m ∈ nodes, d.isWithin m a := by
  induction chain generalizing n nodes with
  | compound parts =>
    obtain ⟨rfl, -⟩ := assigns_compound.1 h
    intro m hm
    rw [List.mem_singleton.1 hm]
    exact hn
  | step left combinator parts ih =>
    obtain ⟨m, before, rfl, hbefore, hlink, -⟩ := h.unstep
    intro x hx
    cases List.mem_append.1 hx with
    | inl hx => exact ih hbefore (hwf.isWithin_of_linked hlink hn) x hx
    | inr hx =>
      rw [List.mem_singleton.1 hx]
      exact hn

/-- A chain holds of a node exactly if its compounds can be assigned to elements, and below a stop
the elements are all below it. -/
theorem chainHoldsWithin_iff_exists_assigns (d : Document) (stop : Option NodeId) (n : NodeId)
    (chain : Chain) :
    (d.chainHoldsWithin stop n chain ↔ ∃ nodes, d.Assigns stop chain n nodes) ∧
      d.chainHolds n chain = d.chainHoldsWithin none n chain ∧
      (d.WellFormed → ∀ root, d.isWithin n root → ∀ nodes, d.Assigns (some root) chain n nodes →
        ∀ m ∈ nodes, d.isWithin m root) := by
  refine ⟨?_, rfl, fun hwf root hn nodes h => h.isWithin hwf hn⟩
  rw [chainHoldsWithin_eq]
  exact chainFits_iff

/-- The chain `p ~ em > b` below a section. -/
theorem exists_assigns_below_section :
    let d : Document := { slots := #[
      some { kind := .element { tag := "section" }, children := [1, 2, 3] },
      some { kind := .element { tag := "p" }, parent := some 0 },
      some { kind := .text "and", parent := some 0 },
      some { kind := .element { tag := "em" }, parent := some 0, children := [4] },
      some { kind := .element { tag := "b" }, parent := some 3 }] }
    let chain : Chain := .step (.step (.compound [.tag "p"]) .subsequentSibling [.tag "em"])
      .child [.tag "b"]
    d.WellFormed ∧ d.isWithin 4 0 ∧
      ∃ nodes, d.Assigns (some 0) chain 4 nodes ∧ ∀ m ∈ nodes, d.isWithin m 0 := by
  intro d chain
  have hwf : d.WellFormed := by decide +kernel
  have hn : d.isWithin 4 0 := by decide +kernel
  obtain ⟨hiff, -, hbelow⟩ := chainHoldsWithin_iff_exists_assigns d (some 0) 4 chain
  obtain ⟨nodes, hnodes⟩ := hiff.1 (by decide +kernel)
  exact ⟨hwf, hn, nodes, hnodes, hbelow hwf 0 hn nodes hnodes⟩

end Document
end DomQuery
