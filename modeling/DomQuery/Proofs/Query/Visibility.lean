import DomQuery.Proofs.Query.Roots

/-!
What a bare selector searches: the live roots and all that lies below them.
-/
namespace DomQuery.Document
variable {d : Document} {n r : NodeId} {roots : List NodeId} {selector : Selector} {scope : Scope}

/-- A live root, or a node below one. -/
def Visible (d : Document) (n : NodeId) : Prop := ∃ r ∈ d.liveRoots, d.LiesIn n r

instance (d : Document) (n : NodeId) : Decidable (d.Visible n) :=
  inferInstanceAs (Decidable (∃ r ∈ d.liveRoots, d.LiesIn n r))

theorem mem_liveRoots : r ∈ d.liveRoots ↔ r ∈ d.roots ∧ d.isTopLevel r = true := List.mem_filter

theorem chainHolds_compound {e : Element} {part : Part} (he : d.element? n = some e) :
    d.chainHolds n (.compound [part]) = d.partHolds n e part := by
  cases part <;> simp [chainHolds, chainHoldsWithin, chainFits, partsHold, partHolds, he,
    Chain.isUnmatchable, Part.isUnmatchable]

namespace WellFormed
variable (h : d.WellFormed)
include h

theorem query_eq_queryRoots : d.query roots selector scope = d.queryRoots roots selector scope := by
  rw [query.eq_def]
  split
  · by_cases hpos : 0 < d.slots.size
    · exact h.queryRoot_eq_queryRoots hpos
    · have hsize := Nat.eq_zero_of_not_pos hpos
      rw [queryRoot_of_size_eq_zero hsize, queryRoots_of_size_eq_zero hsize]
  · rfl

theorem mem_query :
    n ∈ d.query roots selector scope ↔ d.Selects roots selector scope n := by
  rw [h.query_eq_queryRoots]
  by_cases hpos : 0 < d.slots.size
  · exact h.mem_queryRoots hpos
  · have hsize := Nat.eq_zero_of_not_pos hpos
    rw [queryRoots_of_size_eq_zero hsize]
    exact iff_of_false List.not_mem_nil (not_selects_of_size_eq_zero hsize)

theorem pairwise_query :
    (d.query roots selector scope).Pairwise (d.ListedBefore roots) := by
  rw [h.query_eq_queryRoots]
  by_cases hpos : 0 < d.slots.size
  · exact h.pairwise_queryRoots hpos
  · rw [queryRoots_of_size_eq_zero (Nat.eq_zero_of_not_pos hpos)]
    exact .nil

theorem mem_select :
    n ∈ d.select selector ↔ d.Visible n ∧ ∃ chain ∈ selector, d.chainHolds n chain := by
  rw [select, h.mem_query]
  constructor
  · rintro ⟨r, hr, hn, hholds⟩
    exact ⟨⟨r, hr, hn⟩, hholds⟩
  · rintro ⟨⟨r, hr, hn⟩, hholds⟩
    exact ⟨r, hr, hn, hholds⟩

end WellFormed
end DomQuery.Document
