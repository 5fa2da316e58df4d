import DomQuery.Document.Query
import DomQuery.Proofs.Document.Sorting

/-!
Queries over several roots. However the roots overlap, a query lists each node that some root selects
once, tree by tree and each tree in document order. These properties leave one list only.
-/
namespace DomQuery
namespace Document
variable {d : Document} {n m a b r root : NodeId} {roots : List NodeId} {selector : Selector}
  {scope : Scope}

/-- The nodes that a root offers: those below it, and for an inclusive query the root itself. -/
def IsCandidate (d : Document) (root n : NodeId) : Scope → Prop
  | .inclusive => d.LiesIn n root
  | .descendants => d.isWithin n root

/-- Some root offers the node, and some chain holds of it when walks stop at that root. -/
def Selects (d : Document) (roots : List NodeId) (selector : Selector) (scope : Scope)
    (n : NodeId) : Prop :=
  ∃ root ∈ roots, d.IsCandidate root n scope ∧
    ∃ chain ∈ selector, d.chainHoldsWithin (scope.stop root) n chain

/-- The trees of the roots that lie in no other root, as the list of roots comes to them. -/
def rootTrees (d : Document) (roots : List NodeId) : List NodeId :=
  (roots.filter fun r => !roots.any (d.isWithin r ·)).map d.top

/-- The order of results: document order in a tree, and the trees as the outermost roots stand. -/
def ListedBefore (d : Document) (roots : List NodeId) (a b : NodeId) : Prop :=
  (d.top a = d.top b ∧ d.Precedes a b) ∨
    (d.rootTrees roots).idxOf (d.top a) < (d.rootTrees roots).idxOf (d.top b)

theorem lt_size_of_isElement (h : d.isElement n) : n < d.slots.size := by
  cases hn : d.node? n with
  | none => simp [isElement, element?, kind?, hn] at h
  | some node => exact lt_size_of_node? hn

theorem isElement_of_chainHoldsWithin {stop : Option NodeId} {chain : Chain}
    (h : d.chainHoldsWithin stop n chain) : d.isElement n := by
  have hfits := (Bool.and_eq_true_iff.1 h).2
  cases he : d.element? n with
  | none => cases chain <;> simp [chainFits, he] at hfits
  | some e => simp [isElement, he]

theorem outermost_eq :
    d.outermost roots =
      d.sortByOrder ((distinct roots).filter fun r => !roots.any (d.isWithin r ·)) := by
  have hany (r : NodeId) : (d.ancestors r).any (roots.contains ·) = roots.any (d.isWithin r ·) := by
    rw [Bool.eq_iff_iff, List.any_eq_true, List.any_eq_true]
    simp only [isWithin, List.contains_iff_mem, and_comm]
  simp only [outermost, hany]

theorem mem_outermost : r ∈ d.outermost roots ↔ r ∈ roots ∧ ∀ r' ∈ roots, ¬ d.isWithin r r' := by
  rw [outermost_eq, mem_sortByOrder, List.mem_filter, mem_distinct]
  simp

theorem nodup_outermost : (d.outermost roots).Nodup := by
  rw [outermost_eq, (d.sortByOrder_perm _).nodup_iff]
  exact nodup_distinct.filter _

theorem queryRoots_eq :
    d.queryRoots roots selector scope = ((d.outermost roots).flatMap (d.candidates · scope)).filter
      ((roots.flatMap (d.queryRoot selector scope)).contains ·) := by
  rw [queryRoots]
  refine List.filter_congr fun n _ => ?_
  rw [Std.HashSet.contains_ofList]

theorem candidates_sublist : (d.candidates root scope).Sublist (d.subtree root) := by
  cases scope with
  | inclusive => exact List.Sublist.refl _
  | descendants => exact List.tail_sublist _

theorem IsCandidate.liesIn (hn : d.IsCandidate root n scope) : d.LiesIn n root := by
  cases scope with
  | inclusive => exact hn
  | descendants => exact .inr hn

theorem IsCandidate.of_liesIn (hn : d.IsCandidate root n scope) (hroot : d.LiesIn root r) :
    d.IsCandidate r n scope := by
  cases scope with
  | inclusive => exact LiesIn.trans hn hroot
  | descendants =>
    cases hroot with
    | inl heq =>
      subst heq
      exact hn
    | inr hroot => exact isWithin_trans hn hroot

namespace WellFormed
variable (h : d.WellFormed)
include h

/-! What is listed. -/

theorem mem_candidates (hpos : 0 < d.slots.size) :
    n ∈ d.candidates root scope ↔ d.IsCandidate root n scope := by
  cases scope with
  | inclusive => exact h.mem_subtree_iff hpos
  | descendants => exact h.mem_descendants_iff

theorem mem_queryRoot (hpos : 0 < d.slots.size) :
    n ∈ d.queryRoot selector scope root ↔ d.Selects [root] selector scope n := by
  rw [queryRoot, List.mem_filter, h.mem_candidates hpos, List.any_eq_true]
  simp [Selects]

theorem exists_outermost (hr : r ∈ roots) :
    ∃ o ∈ roots, (∀ r' ∈ roots, ¬ d.isWithin o r') ∧ d.LiesIn r o := by
  induction r using h.ascend with
  | step r ih =>
    by_cases hout : ∃ r' ∈ roots, d.isWithin r r'
    · obtain ⟨r', hr', hwithin⟩ := hout
      obtain ⟨o, ho, hfree, hlies⟩ := ih r' hwithin hr'
      exact ⟨o, ho, hfree, .trans (.inr hwithin) hlies⟩
    · exact ⟨r, hr, fun r' hr' hw => hout ⟨r', hr', hw⟩, .inl rfl⟩

theorem mem_queryRoots (hpos : 0 < d.slots.size) :
    n ∈ d.queryRoots roots selector scope ↔ d.Selects roots selector scope n := by
  have hfound : n ∈ roots.flatMap (d.queryRoot selector scope) ↔ d.Selects roots selector scope n := by
    simp [List.mem_flatMap, h.mem_queryRoot hpos, Selects]
  rw [queryRoots_eq, List.mem_filter, List.contains_iff_mem, hfound]
  refine and_iff_right_of_imp ?_
  rintro ⟨root, hroot, hn, -⟩
  obtain ⟨o, ho, hfree, hlies⟩ := h.exists_outermost hroot
  exact List.mem_flatMap.2 ⟨o, mem_outermost.2 ⟨ho, hfree⟩,
    (h.mem_candidates hpos).2 (hn.of_liesIn hlies)⟩

/-! The order of the list. -/

theorem listedBefore_asymm (hab : d.ListedBefore roots a b) : ¬ d.ListedBefore roots b a := by
  intro hba
  rcases hab with ⟨htop, hab⟩ | hab
  · rcases hba with ⟨-, hba⟩ | hba
    · exact h.precedes_asymm hab hba
    · exact absurd hba (by rw [htop]; exact Nat.lt_irrefl _)
  · rcases hba with ⟨htop, -⟩ | hba
    · exact absurd hab (by rw [htop]; exact Nat.lt_irrefl _)
    · exact Nat.lt_asymm hab hba

theorem pairwise_listedBefore_subtree (hpos : 0 < d.slots.size) (root : NodeId) :
    (d.subtree root).Pairwise (d.ListedBefore roots) := by
  refine (h.pairwise_precedes_subtree root).imp_of_mem fun {a b} ha hb hab => .inl ⟨?_, hab⟩
  rw [h.top_of_liesIn ((h.mem_subtree_iff hpos).1 ha), h.top_of_liesIn ((h.mem_subtree_iff hpos).1 hb)]

theorem pairwise_outermost (hpos : 0 < d.slots.size) :
    (d.outermost roots).Pairwise (d.ListedBefore roots) := by
  have htrees : distinct (((distinct roots).filter fun r => !roots.any (d.isWithin r ·)).map d.top) =
      distinct (d.rootTrees roots) := distinct_map_filter_distinct _ _ _
  rw [outermost_eq, h.sortByOrder_eq hpos (nodup_distinct.filter _), htrees, List.pairwise_flatMap]
  refine ⟨fun t _ => (h.pairwise_listedBefore_subtree hpos t).filter _, ?_⟩
  refine (pairwise_idxOf_distinct _).imp_of_mem fun {s t} hs ht hst a ha b hb => .inr ?_
  have hroot {t : NodeId} (ht : t ∈ distinct (d.rootTrees roots)) : d.top t = t := by
    obtain ⟨r, -, rfl⟩ := List.mem_map.1 (mem_distinct.1 ht)
    exact (h.top_of_liesIn (h.liesIn_top r)).symm
  rw [h.top_of_liesIn ((h.mem_subtree_iff hpos).1 (List.mem_filter.1 ha).1), hroot hs,
    h.top_of_liesIn ((h.mem_subtree_iff hpos).1 (List.mem_filter.1 hb).1), hroot ht]
  exact hst

theorem listedBefore_of_liesIn {s : NodeId} (hrs : d.ListedBefore roots r s) (hfree : ¬ d.isWithin s r)
    (ha : d.LiesIn a r) (hb : d.LiesIn b s) : d.ListedBefore roots a b := by
  have hatop := h.top_of_liesIn ha
  have hbtop := h.top_of_liesIn hb
  rcases hrs with ⟨htop, hrs⟩ | hrs
  · refine .inl ⟨by rw [hatop, hbtop, htop], ?_⟩
    cases hrs with
    | above hwithin => exact absurd hwithin hfree
    | beside hxy hr hs => exact .beside hxy (ha.trans hr) (hb.trans hs)
  · refine .inr ?_
    rw [hatop, hbtop]
    exact hrs

theorem pairwise_queryRoots (hpos : 0 < d.slots.size) :
    (d.queryRoots roots selector scope).Pairwise (d.ListedBefore roots) := by
  rw [queryRoots]
  refine List.Pairwise.filter _ (List.pairwise_flatMap.2 ⟨fun r _ => ?_, ?_⟩)
  · exact (h.pairwise_listedBefore_subtree hpos r).sublist candidates_sublist
  · refine (h.pairwise_outermost hpos).imp_of_mem fun {r s} hr hs hrs a ha b hb => ?_
    have hfree := (mem_outermost.1 hs).2 r (mem_outermost.1 hr).1
    exact h.listedBefore_of_liesIn hrs hfree ((h.mem_candidates hpos).1 ha).liesIn
      ((h.mem_candidates hpos).1 hb).liesIn

theorem nodup_of_pairwise_listedBefore {nodes : List NodeId}
    (hnodes : nodes.Pairwise (d.ListedBefore roots)) : nodes.Nodup :=
  nodup_of_pairwise (fun _ _ => h.listedBefore_asymm) hnodes

theorem eq_of_pairwise_listedBefore {xs ys : List NodeId} (hxs : xs.Pairwise (d.ListedBefore roots))
    (hys : ys.Pairwise (d.ListedBefore roots)) (hmem : ∀ n, n ∈ xs ↔ n ∈ ys) : xs = ys :=
  eq_of_pairwise (fun _ _ => h.listedBefore_asymm) hxs hys hmem

theorem queryRoot_eq_queryRoots (hpos : 0 < d.slots.size) :
    d.queryRoot selector scope root = d.queryRoots [root] selector scope := by
  have hroot : (d.queryRoot selector scope root).Pairwise (d.ListedBefore [root]) :=
    ((h.pairwise_listedBefore_subtree hpos root).sublist candidates_sublist).filter _
  refine h.eq_of_pairwise_listedBefore hroot (h.pairwise_queryRoots hpos) fun n => ?_
  rw [h.mem_queryRoot hpos, h.mem_queryRoots hpos]

end WellFormed

/-! A document without nodes. -/

theorem queryRoots_of_size_eq_zero (hsize : d.slots.size = 0) :
    d.queryRoots roots selector scope = [] := by
  have hnil (root : NodeId) : d.candidates root scope = [] := by
    have hsub : (d.candidates root scope).Sublist (d.subtree root) := candidates_sublist
    rw [subtree, hsize] at hsub
    exact List.sublist_nil.1 hsub
  rw [queryRoots]
  simp [hnil]

theorem queryRoot_of_size_eq_zero (hsize : d.slots.size = 0) :
    d.queryRoot selector scope root = [] := by
  have hsub : (d.candidates root scope).Sublist (d.subtree root) := candidates_sublist
  rw [subtree, hsize] at hsub
  rw [queryRoot, List.sublist_nil.1 hsub]
  rfl

theorem not_selects_of_size_eq_zero (hsize : d.slots.size = 0) :
    ¬ d.Selects roots selector scope n := by
  rintro ⟨root, -, -, chain, -, hholds⟩
  exact Nat.not_lt_zero n (hsize ▸ lt_size_of_isElement (isElement_of_chainHoldsWithin hholds))

/-- A query over any roots lists what they select, once and in order, and the way a single root takes
gives the same list as the general one. -/
theorem query_lists_selected (d : Document) (h : d.WellFormed) (roots : List NodeId)
    (selector : Selector) (scope : Scope) :
    (d.query roots selector scope).Nodup ∧
      (∀ n, n ∈ d.query roots selector scope ↔ d.Selects roots selector scope n) ∧
      (d.query roots selector scope).Pairwise (d.ListedBefore roots) ∧
      ∀ root, d.queryRoot selector scope root = d.queryRoots [root] selector scope := by
  have hfast (root : NodeId) : d.queryRoot selector scope root = d.queryRoots [root] selector scope := by
    by_cases hpos : 0 < d.slots.size
    · exact h.queryRoot_eq_queryRoots hpos
    · have hsize := Nat.eq_zero_of_not_pos hpos
      rw [queryRoot_of_size_eq_zero hsize, queryRoots_of_size_eq_zero hsize]
  have hgeneral : d.query roots selector scope = d.queryRoots roots selector scope := by
    rw [query.eq_def]
    split
    · exact hfast _
    · rfl
  rw [hgeneral]
  by_cases hpos : 0 < d.slots.size
  · have hpairwise : (d.queryRoots roots selector scope).Pairwise (d.ListedBefore roots) :=
      h.pairwise_queryRoots hpos
    exact ⟨h.nodup_of_pairwise_listedBefore hpairwise, fun n => h.mem_queryRoots hpos, hpairwise, hfast⟩
  · have hsize := Nat.eq_zero_of_not_pos hpos
    rw [queryRoots_of_size_eq_zero hsize]
    exact ⟨List.nodup_nil, fun n => iff_of_false List.not_mem_nil (not_selects_of_size_eq_zero hsize),
      List.Pairwise.nil, hfast⟩

/-- Roots that repeat and lie in one another, in two trees. -/
theorem query_lists_selected_two_trees :
    let d : Document := { slots := #[
      some { kind := .element { tag := "div" }, children := [1, 2, 4] },
      some { kind := .element { tag := "p" }, parent := some 0 },
      some { kind := .element { tag := "div" }, parent := some 0, children := [3] },
      some { kind := .element { tag := "p" }, parent := some 2 },
      some { kind := .element { tag := "p" }, parent := some 0 },
      some { kind := .element { tag := "div" }, children := [6] },
      some { kind := .element { tag := "p" }, parent := some 5 }] }
    let selector : Selector := [.compound [.tag "p"]]
    d.WellFormed ∧ d.query [2, 5, 0, 2] selector .descendants = [6, 1, 3, 4] ∧
      [6, 1, 3, 4].Pairwise (d.ListedBefore [2, 5, 0, 2]) := by
  intro d selector
  have hwf : d.WellFormed := by decide +kernel
  have hquery : d.query [2, 5, 0, 2] selector .descendants = [6, 1, 3, 4] := by
    rw [query, queryRoots_eq, outermost_eq, hwf.sortByOrder_eq (by decide) (nodup_distinct.filter _)]
    · decide +kernel
    · exact fun root h => absurd h (by simp)
  obtain ⟨-, -, hpairwise, -⟩ := query_lists_selected d hwf [2, 5, 0, 2] selector .descendants
  rw [hquery] at hpairwise
  exact ⟨hwf, hquery, hpairwise⟩

end Document
end DomQuery
