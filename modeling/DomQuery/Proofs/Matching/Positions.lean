import DomQuery.Collection.Filtering
import DomQuery.Proofs.Document.OrderedForest
import DomQuery.Proofs.Document.Preorder
import DomQuery.Proofs.Markup.Forest
import DomQuery.Proofs.Selector.Progression

/-!
Positions among siblings. The elements among which an element is counted stand in a row, in document
order. Counting from either end, asking for an end and asking for the index all speak of this row. Texts
and comments are not in it.
-/
namespace DomQuery.Document
variable {d : Document} {n s : NodeId} {kin : Kin} {k m : Nat}

/-- The elements with the same parent, the node included. A node without parent has no siblings. -/
def row (d : Document) (n : NodeId) : List NodeId :=
  match d.parent? n with
  | some p => d.elementChildren p
  | none => [n]

/-- The elements among which an element is counted: all of the row, or those with its tag. -/
def peers (d : Document) (n : NodeId) : Kin → List NodeId
  | .child => d.row n
  | .ofType => (d.row n).filter (d.sameTag · n)

/-- The node is the `k`-th of `m`, counted from one. -/
structure StandsAt (d : Document) (n : NodeId) (kin : Kin) (k m : Nat) : Prop where
  pos : 0 < k
  getElem?_eq : (d.peers n kin)[k - 1]? = some n
  length_eq : (d.peers n kin).length = m

/-- What the selectors say of the `k`-th of `m`. -/
structure HasPosition (d : Document) (n : NodeId) (kin : Kin) (k m : Nat) : Prop where
  nth : ∀ f, d.compoundHolds n [.position (.nth kin f)] ↔ f.accepts? k = some true
  nthLast : ∀ f, d.compoundHolds n [.position (.nthLast kin f)] ↔ f.accepts? (m - k + 1) = some true
  answers : m < 0x7fffffff80000000 → ∀ f : Formula, (f.accepts? k).isSome ∧ (f.accepts? (m - k + 1)).isSome
  first : d.compoundHolds n [.position (.first kin)] ↔ k = 1
  last : d.compoundHolds n [.position (.last kin)] ↔ k = m
  only : d.compoundHolds n [.position (.only kin)] ↔ m = 1

/-! The row. -/

theorem sameTag_self (hn : d.isElement n) : d.sameTag n n := by
  obtain ⟨e, he⟩ := Option.isSome_iff_exists.1 hn
  simp [sameTag, tag?, he, Text.sameIgnoringCase]

theorem WellFormed.row_eq (h : d.WellFormed) (hn : d.isElement n) :
    d.row n = (d.precedingElements n).reverse ++ n :: d.followingElements n := by
  rw [row, precedingElements, followingElements]
  cases hp : d.parent? n with
  | none =>
    obtain ⟨hbefore, hafter⟩ := h.orderedForest.siblings_of_parent?_eq_none hp
    rw [hbefore, hafter]
    rfl
  | some p =>
    obtain ⟨left, right, hchildren⟩ := List.append_of_mem (h.parent?_eq_some_iff.1 hp)
    have hat : (d.children p)[left.length]? = some n := by simp [hchildren]
    have hbefore : d.preceding n = left.reverse := by
      rw [h.orderedForest.preceding_eq hat, hchildren, List.take_left]
    rw [hbefore, h.following_of_children hchildren]
    dsimp only
    rw [elementChildren, hchildren, List.filter_append, List.filter_cons_of_pos hn,
      List.filter_reverse, List.reverse_reverse]

theorem WellFormed.peers_eq (h : d.WellFormed) (hn : d.isElement n) (kin : Kin) :
    d.peers n kin = (d.kinBefore n kin).reverse ++ n :: d.kinAfter n kin := by
  cases kin with
  | child => exact h.row_eq hn
  | ofType =>
    rw [peers, h.row_eq hn, List.filter_append,
      List.filter_cons_of_pos (p := (d.sameTag · n)) (sameTag_self hn), List.filter_reverse]
    rfl

theorem peers_sublist (d : Document) (n : NodeId) (kin : Kin) : (d.peers n kin).Sublist (d.row n) := by
  cases kin with
  | child => exact List.Sublist.refl _
  | ofType => exact List.filter_sublist

theorem WellFormed.nodup_peers (h : d.WellFormed) (n : NodeId) (kin : Kin) : (d.peers n kin).Nodup := by
  refine List.Nodup.sublist (peers_sublist d n kin) ?_
  rw [row]
  split
  · exact (h.nodup_children _).filter _
  · exact List.nodup_singleton n

theorem WellFormed.mem_row_iff (h : d.WellFormed) (hn : d.isElement n) : s ∈ d.row n ↔
    d.isElement s ∧ (s = n ∨ ∃ p, d.parent? n = some p ∧ d.parent? s = some p) := by
  rw [row]
  cases hp : d.parent? n with
  | none =>
    simp only [List.mem_singleton, reduceCtorEq, false_and, exists_false, or_false]
    exact ⟨fun heq => ⟨heq ▸ hn, heq⟩, And.right⟩
  | some p =>
    simp only [elementChildren, List.mem_filter, Option.some.injEq, exists_eq_left',
      ← h.parent?_eq_some_iff]
    constructor
    · rintro ⟨hparent, hs⟩
      exact ⟨hs, .inr hparent⟩
    · rintro ⟨hs, rfl | hparent⟩
      · exact ⟨hp, hs⟩
      · exact ⟨hparent, hs⟩

theorem pairwise_precedes_row (d : Document) (n : NodeId) : (d.row n).Pairwise d.Precedes := by
  rw [row]
  split
  · refine List.pairwise_iff_forall_sublist.2 fun {a b} hab => ?_
    exact .beside (hab.trans List.filter_sublist) (.inl rfl) (.inl rfl)
  · exact List.pairwise_singleton _ n

/-! Counting. -/

theorem WellFormed.standsAt_iff (h : d.WellFormed) (hn : d.isElement n) : d.StandsAt n kin k m ↔
    k = (d.kinBefore n kin).length + 1 ∧ m = k + (d.kinAfter n kin).length := by
  have hpeers := h.peers_eq hn kin
  have hlength : (d.peers n kin).length =
      (d.kinBefore n kin).length + 1 + (d.kinAfter n kin).length := by
    rw [hpeers, List.length_append, List.length_reverse, List.length_cons]
    omega
  have hat : (d.peers n kin)[(d.kinBefore n kin).length]? = some n := by simp [hpeers]
  constructor
  · rintro ⟨hpos, hk, rfl⟩
    have hindex : (d.kinBefore n kin).length = k - 1 :=
      (List.getElem?_inj (by omega) (h.nodup_peers n kin)).1 (hat.trans hk.symm)
    omega
  · rintro ⟨rfl, rfl⟩
    exact ⟨Nat.succ_pos _, hat, hlength⟩

theorem compoundHolds_position (hn : d.isElement n) (position : Position) :
    d.compoundHolds n [.position position] = d.isAt n position := by
  obtain ⟨e, he⟩ := Option.isSome_iff_exists.1 hn
  simp [compoundHolds, he, partsHold, partHolds]

theorem WellFormed.hasPosition (h : d.WellFormed) (hn : d.isElement n)
    (hstands : d.StandsAt n kin k m) : d.HasPosition n kin k m := by
  obtain ⟨rfl, rfl⟩ := (h.standsAt_iff hn).1 hstands
  refine ⟨fun f => ?_, fun f => ?_, fun hm f => ?_, ?_, ?_, ?_⟩
  case refine_3 => exact ⟨Formula.isSome_accepts? (by omega) f, Formula.isSome_accepts? (by omega) f⟩
  all_goals rw [compoundHolds_position hn, isAt]
  · exact decide_eq_true_iff
  · have hback : (d.kinBefore n kin).length + 1 + (d.kinAfter n kin).length -
        ((d.kinBefore n kin).length + 1) + 1 = (d.kinAfter n kin).length + 1 := by omega
    rw [hback, decide_eq_true_iff]
  · rw [List.isEmpty_iff_length_eq_zero]
    omega
  · rw [List.isEmpty_iff_length_eq_zero]
    omega
  · rw [Bool.and_eq_true, List.isEmpty_iff_length_eq_zero, List.isEmpty_iff_length_eq_zero]
    omega

theorem WellFormed.index?_eq (h : d.WellFormed) (hn : d.isElement n)
    (hstands : d.StandsAt n .child k m) {c : Collection} (hc : c.first? = some n)
    (hparent : d.parent? n ≠ none) : c.index? d = some (k - 1) := by
  obtain ⟨rfl, -⟩ := (h.standsAt_iff hn).1 hstands
  obtain ⟨p, hp⟩ := Option.ne_none_iff_exists'.1 hparent
  simp [Collection.index?, hc, hp, kinBefore]

/-- Every element has one place in the row of its siblings and one among those with its tag, and all that
tells positions tells these. The row holds nothing but elements, in document order. The nodes at the top of
a forest that was read from markup are siblings of each other and of nothing else. -/
theorem positions_agree (h : d.WellFormed) (hn : d.isElement n) :
    (∀ s, s ∈ d.row n ↔
      d.isElement s ∧ (s = n ∨ ∃ p, d.parent? n = some p ∧ d.parent? s = some p)) ∧
    (d.row n).Pairwise d.Precedes ∧
    (∀ kin, ∃ k m, d.StandsAt n kin k m) ∧
    (∀ kin k m, d.StandsAt n kin k m → d.HasPosition n kin k m) ∧
    (∀ k m, d.StandsAt n .child k m → d.parent? n ≠ none →
      ∀ c : Collection, c.first? = some n → c.index? d = some (k - 1)) ∧
    ∀ markup, (d.parse markup).1.WellFormed ∧
      ∀ s, (d.parse markup).1.parent? s = some d.fresh ↔ s ∈ (d.parse markup).2 := by
  refine ⟨fun s => h.mem_row_iff hn, pairwise_precedes_row d n, fun kin => ?_,
    fun kin k m => h.hasPosition hn, fun k m hstands hparent c hc => h.index?_eq hn hstands hc hparent,
    fun markup => ?_⟩
  · exact ⟨_, _, (h.standsAt_iff hn).2 ⟨rfl, rfl⟩⟩
  · have hlifted := h.lifted_parse markup
    exact ⟨hlifted.wellFormed, hlifted.parent?_eq_some_iff⟩

/-- The last of three elements at the top of a forest and the second with its tag, with texts and a
comment between. -/
theorem positions_agree_mixed :
    let d : Document := { slots := #[
      some { kind := .fragment, children := [1, 2, 3, 4, 5, 6] },
      some { kind := .text "a", parent := some 0 },
      some { kind := .element { tag := "LI" }, parent := some 0 },
      some { kind := .comment "b", parent := some 0 },
      some { kind := .element { tag := "p" }, parent := some 0 },
      some { kind := .element { tag := "li" }, parent := some 0 },
      some { kind := .text "c", parent := some 0 }] }
    d.WellFormed ∧ d.isElement 5 ∧ d.StandsAt 5 .child 3 3 ∧ d.StandsAt 5 .ofType 2 2 ∧
      d.HasPosition 5 .child 3 3 ∧ d.HasPosition 5 .ofType 2 2 ∧
      (Collection.ofNodes 0 [5]).index? d = some 2 := by
  intro d
  have h : d.WellFormed := by decide +kernel
  have hn : d.isElement 5 := by decide +kernel
  have hrow : d.StandsAt 5 .child 3 3 := ⟨by decide, by decide +kernel, by decide +kernel⟩
  have htype : d.StandsAt 5 .ofType 2 2 := ⟨by decide, by decide +kernel, by decide +kernel⟩
  obtain ⟨-, -, -, hposition, hindex, -⟩ := positions_agree h hn
  exact ⟨h, hn, hrow, htype, hposition _ _ _ hrow, hposition _ _ _ htype,
    hindex 3 3 hrow (by decide +kernel) _ rfl⟩

end DomQuery.Document
