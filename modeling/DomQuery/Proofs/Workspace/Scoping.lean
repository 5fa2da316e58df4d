import DomQuery.Proofs.Matching.Assignment
import DomQuery.Proofs.Workspace.Wrapping

/-!
Scopes. What a bare selector selects is what stays of all elements when they are filtered. A search
below nodes stops its walks at each of them, so that the outermost ones see all that the others see.
-/
namespace DomQuery
namespace Document
variable {d : Document} {stop stop' : Option NodeId} {n m r root : NodeId}
  {roots roots' before after : List NodeId} {chain : Chain} {combinator : Combinator}
  {selector : Selector} {scope : Scope}

/-! Where walks stop. -/

theorem chainFits_mono {Within : NodeId → Prop}
    (hlinked : ∀ n m combinator, Within n → d.Linked stop n m combinator →
      Within m ∧ d.Linked stop' n m combinator)
    (hn : Within n) (hfits : d.chainFits stop n chain) : d.chainFits stop' n chain := by
  induction chain generalizing n with
  | compound parts => exact hfits
  | step left combinator parts ih =>
    obtain ⟨hparts, m, hlink, hleft⟩ := chainFits_step.1 hfits
    obtain ⟨hm, hlink⟩ := hlinked n m combinator hn hlink
    exact chainFits_step.2 ⟨hparts, m, hlink, ih hm hleft⟩

theorem Linked.unstopped (hm : d.Linked stop n m combinator) : d.Linked none n m combinator := by
  have hstep (a b : NodeId) (hb : d.StepsUp stop a b) : d.StepsUp none a b := ⟨hb.1, nofun⟩
  cases combinator with
  | child => exact hstep n m hm
  | descendant => exact Relation.TransGen.mono hstep n m hm
  | nextSibling => exact hm
  | subsequentSibling => exact hm

theorem chainHolds_of_chainHoldsWithin (hholds : d.chainHoldsWithin stop n chain) :
    d.chainHolds n chain := by
  rw [chainHolds, chainHoldsWithin_eq]
  rw [chainHoldsWithin_eq] at hholds
  exact chainFits_mono (fun _ _ _ _ hlink => ⟨trivial, hlink.unstopped⟩) trivial hholds

theorem chainHoldsWithin_eq_chainHolds (hsteps : chain.steps = []) :
    d.chainHoldsWithin stop n chain = d.chainHolds n chain := by
  cases chain with
  | compound parts => rw [chainHolds, chainHoldsWithin_eq, chainHoldsWithin_eq]; rfl
  | step left combinator parts => simp [Chain.steps] at hsteps

theorem chainHoldsWithin_universal :
    d.chainHoldsWithin stop n (.compound [.universal]) = d.isElement n := by
  rw [chainHoldsWithin_eq, chainFits_compound, compoundHolds, isElement]
  cases d.element? n <;> simp [partsHold, partHolds]

theorem selects_everything :
    d.Selects roots Selector.everything scope n ↔
      d.isElement n ∧ ∃ root ∈ roots, d.IsCandidate root n scope := by
  simp only [Selects, Selector.everything, List.mem_singleton, exists_eq_left,
    chainHoldsWithin_universal]
  constructor
  · rintro ⟨root, hroot, hn, he⟩
    exact ⟨he, root, hroot, hn⟩
  · rintro ⟨he, root, hroot, hn⟩
    exact ⟨root, hroot, hn, he⟩

theorem Selects.of_everything (hn : d.Selects roots selector scope n) :
    d.Selects roots Selector.everything scope n ∧ d.selectorHolds n selector := by
  obtain ⟨root, hroot, hn, chain, hchain, hholds⟩ := hn
  refine ⟨selects_everything.2 ⟨isElement_of_chainHoldsWithin hholds, root, hroot, hn⟩, ?_⟩
  rw [selectorHolds_eq]
  exact List.any_eq_true.2 ⟨chain, hchain, chainHolds_of_chainHoldsWithin hholds⟩

theorem selects_iff_of_everything
    (hholds : ∀ root, ∀ chain ∈ selector,
      d.chainHoldsWithin (scope.stop root) n chain = d.chainHolds n chain) :
    d.Selects roots selector scope n ↔
      d.Selects roots Selector.everything scope n ∧ d.selectorHolds n selector := by
  refine ⟨Selects.of_everything, fun ⟨hn, hselector⟩ => ?_⟩
  obtain ⟨-, root, hroot, hn⟩ := selects_everything.1 hn
  rw [selectorHolds_eq] at hselector
  obtain ⟨chain, hchain, hchainholds⟩ := List.any_eq_true.1 hselector
  exact ⟨root, hroot, hn, chain, hchain, (hholds root chain hchain).trans hchainholds⟩

namespace WellFormed
variable (h : d.WellFormed)
include h

/-- Strictly below `r`, a walk that stops at `r` goes as well if it stops above. -/
theorem linked_of_liesIn (hroot : d.LiesIn r root) (hn : d.isWithin n r)
    (hm : d.Linked (some r) n m combinator) :
    d.isWithin m r ∧ d.Linked (some root) n m combinator := by
  have hstep {a b : NodeId} (ha : d.isWithin a r) (hb : d.StepsUp (some r) a b) :
      d.isWithin b r ∧ d.StepsUp (some root) a b := by
    have hbelow := isWithin_of_stepsUp hb ha
    refine ⟨hbelow, hb.1, fun heq => ?_⟩
    obtain rfl : b = root := Option.some.inj heq
    cases hroot with
    | inl heq => exact hb.2 (congrArg some heq.symm)
    | inr habove => exact h.not_isWithin_of_isWithin hbelow habove
  refine ⟨h.isWithin_of_linked hm hn, ?_⟩
  cases combinator with
  | child => exact (hstep hn hm).2
  | descendant =>
    induction hm using Relation.TransGen.head_induction_on with
    | single hm => exact .single (hstep hn hm).2
    | head hm _ ih => exact .head (hstep hn hm).2 (ih (hstep hn hm).1)
  | nextSibling => exact hm
  | subsequentSibling => exact hm

theorem chainHoldsWithin_of_liesIn (hroot : d.LiesIn r root) (hn : d.isWithin n r)
    (hholds : d.chainHoldsWithin (some r) n chain) : d.chainHoldsWithin (some root) n chain := by
  rw [chainHoldsWithin_eq] at hholds ⊢
  exact chainFits_mono (fun _ _ _ => h.linked_of_liesIn hroot) hn hholds

theorem selects_of_liesIn (hroots : ∀ r ∈ roots, ∃ root ∈ roots', d.LiesIn r root)
    (hn : d.Selects roots selector .descendants n) : d.Selects roots' selector .descendants n := by
  obtain ⟨r, hr, hn, chain, hchain, hholds⟩ := hn
  obtain ⟨root, hroot, hlies⟩ := hroots r hr
  exact ⟨root, hroot, hn.of_liesIn hlies, chain, hchain, h.chainHoldsWithin_of_liesIn hlies hn hholds⟩

/-! Lists of results. -/

theorem query_eq_filter {p : NodeId → Bool}
    (hp : ∀ n, d.Selects roots selector scope n ↔
      d.Selects roots Selector.everything scope n ∧ p n) :
    d.query roots selector scope = (d.query roots Selector.everything scope).filter p := by
  refine h.eq_of_pairwise_listedBefore h.pairwise_query (h.pairwise_query.filter p) fun n => ?_
  rw [List.mem_filter, h.mem_query, h.mem_query, hp]

theorem query_sublist_filter :
    (d.query roots selector scope).Sublist
      ((d.query roots Selector.everything scope).filter (d.selectorHolds · selector)) := by
  have hfound (n : NodeId) : d.Selects roots selector scope n ↔
      d.Selects roots Selector.everything scope n ∧ (d.query roots selector scope).contains n := by
    rw [List.contains_iff_mem, h.mem_query]
    exact ⟨fun hn => ⟨hn.of_everything.1, hn⟩, And.right⟩
  rw [h.query_eq_filter hfound]
  refine List.monotone_filter_right _ fun n hn => ?_
  exact (h.mem_query.1 (List.contains_iff_mem.1 hn)).of_everything.2

theorem select_eq_filter :
    d.select selector = (d.select Selector.everything).filter (d.selectorHolds · selector) :=
  h.query_eq_filter fun _ => selects_iff_of_everything fun _ _ _ => rfl

/-- Walks are stopped in vain if no chain has a combinator. -/
theorem query_eq_filter_of_steps (hsteps : ∀ chain ∈ selector, chain.steps = []) :
    d.query roots selector scope =
      (d.query roots Selector.everything scope).filter (d.selectorHolds · selector) :=
  h.query_eq_filter fun _ => selects_iff_of_everything fun _ chain hchain =>
    chainHoldsWithin_eq_chainHolds (hsteps chain hchain)

/-! Roots that make no difference. -/

theorem query_congr (houtermost : d.outermost roots = d.outermost roots')
    (hselects : ∀ n, d.Selects roots selector scope n ↔ d.Selects roots' selector scope n) :
    d.query roots selector scope = d.query roots' selector scope := by
  rw [h.query_eq_queryRoots, h.query_eq_queryRoots]
  by_cases hpos : 0 < d.slots.size
  · rw [queryRoots_eq, queryRoots_eq, houtermost]
    refine List.filter_congr fun n _ => ?_
    rw [Bool.eq_iff_iff, List.contains_iff_mem, List.contains_iff_mem]
    simpa only [List.mem_flatMap, h.mem_queryRoot hpos, Selects, List.mem_singleton,
      exists_eq_left] using hselects n
  · have hsize := Nat.eq_zero_of_not_pos hpos
    rw [queryRoots_of_size_eq_zero hsize, queryRoots_of_size_eq_zero hsize]

theorem outermost_outermost : d.outermost (d.outermost roots) = d.outermost roots := by
  have hfree : (d.outermost roots).filter (fun r => !(d.outermost roots).any (d.isWithin r ·)) =
      d.outermost roots := by
    refine List.filter_eq_self.2 fun r hr => ?_
    rw [Bool.not_eq_true', List.any_eq_false]
    exact fun r' hr' => (mem_outermost.1 hr).2 r' (mem_outermost.1 hr').1
  have hsorted : d.outermost (d.outermost roots) = d.sortByOrder (d.outermost roots) := by
    rw [outermost_eq, distinct_of_nodup nodup_outermost, hfree]
  rw [hsorted, outermost_eq]
  exact h.sortByOrder_sortByOrder _

theorem query_outermost :
    d.query (d.outermost roots) selector .descendants = d.query roots selector .descendants := by
  refine h.query_congr h.outermost_outermost fun n => ?_
  constructor
  · exact h.selects_of_liesIn fun r hr => ⟨r, (mem_outermost.1 hr).1, .inl rfl⟩
  · refine h.selects_of_liesIn fun r hr => ?_
    obtain ⟨root, hroot, hfree, hlies⟩ := h.exists_outermost hr
    exact ⟨root, mem_outermost.2 ⟨hroot, hfree⟩, hlies⟩

omit h in
theorem outermost_insert (hroot : root ∈ before ++ after) (hr : d.isWithin r root) :
    d.outermost (before ++ r :: after) = d.outermost (before ++ after) := by
  have hany (x : NodeId) : (before ++ r :: after).any (d.isWithin x ·) =
      (before ++ after).any (d.isWithin x ·) := by
    rw [Bool.eq_iff_iff, List.any_eq_true, List.any_eq_true]
    refine ⟨fun ⟨y, hy, hx⟩ => ?_, fun ⟨y, hy, hx⟩ => ⟨y, ?_, hx⟩⟩
    · by_cases heq : y = r
      · subst heq
        exact ⟨root, hroot, isWithin_trans hx hr⟩
      · exact ⟨y, by simpa [heq] using hy, hx⟩
    · simp only [List.mem_append, List.mem_cons] at hy ⊢
      exact hy.imp_right .inr
  have hinside : (before ++ after).any (d.isWithin r ·) := List.any_eq_true.2 ⟨root, hroot, hr⟩
  simp only [outermost_eq, hany, filter_distinct]
  rw [List.filter_append, List.filter_cons_of_neg (by simp [hinside]), ← List.filter_append]

theorem query_insert (hroot : root ∈ before ++ after) (hr : d.isWithin r root) :
    d.query (before ++ r :: after) selector .descendants =
      d.query (before ++ after) selector .descendants := by
  refine h.query_congr (outermost_insert hroot hr) fun n => ?_
  constructor
  · refine h.selects_of_liesIn fun x hx => ?_
    by_cases heq : x = r
    · exact ⟨root, hroot, .inr (heq ▸ hr)⟩
    · exact ⟨x, by simpa [heq] using hx, .inl rfl⟩
  · refine h.selects_of_liesIn fun x hx => ⟨x, ?_, .inl rfl⟩
    simp only [List.mem_append, List.mem_cons] at hx ⊢
    exact hx.imp_right .inr

end WellFormed
end Document

namespace Collection
variable {d : Document} {c : Collection} {text : String} {selector : Selector}

theorem find_eq_ok (hselector : Selector.parse text = .ok selector) :
    c.find d text = .ok (c.derive (d.query c.nodes selector .descendants)) :=
  bind_eq_ok.2 ⟨selector, hselector, rfl⟩

theorem filter_eq_ok (hselector : Selector.parse text = .ok selector) :
    c.filter d text = .ok (c.derive (c.nodes.filter (d.selectorHolds · selector))) :=
  bind_eq_ok.2 ⟨selector, hselector, rfl⟩

end Collection

namespace Workspace
open Document Collection

theorem select_eq_ok {ws : Workspace} {dom : DomId} {text : String} {selector : Selector}
    (hselector : Selector.parse text = .ok selector) :
    ws.select dom text = .ok (.ofNodes dom ((ws.document dom).select selector)) :=
  bind_eq_ok.2 ⟨selector, hselector, rfl⟩

/-- The scopes of selectors agree. A bare selector selects what it leaves of all elements, a search
below several nodes is the search below the outermost of them, and what is found below nodes is among
the elements below them that the selector holds of; without combinators it is all of these. -/
theorem scopes_agree (ws : Workspace) (dom : DomId) (h : (ws.document dom).WellFormed) :
    let d := ws.document dom
    (∀ text, (ws.select dom text).map (·.nodes) = (do
      let all ← ws.select dom "*"
      let kept ← all.filter d text
      return kept.nodes)) ∧
    (∀ roots selector,
      d.query (d.outermost roots) selector .descendants = d.query roots selector .descendants ∧
      ∀ before after r root, roots = before ++ after → root ∈ roots → d.isWithin r root →
        d.query (before ++ r :: after) selector .descendants =
          d.query roots selector .descendants) ∧
    ∀ (c : Collection) text selector, Selector.parse text = .ok selector →
      ∃ found all kept, c.find d text = .ok found ∧ c.find d "*" = .ok all ∧
        all.filter d text = .ok kept ∧ found.nodes.Sublist kept.nodes ∧
        ((∀ chain ∈ selector, chain.steps = []) → found.nodes = kept.nodes) := by
  intro d
  refine ⟨fun text => ?_, fun roots selector => ⟨h.query_outermost, ?_⟩,
    fun c text selector hselector => ?_⟩
  · have hstar : ws.select dom "*" = .ok (.ofNodes dom (d.select Selector.everything)) :=
      select_eq_ok Selector.parse_star
    cases hselector : Selector.parse text with
    | error e =>
      rw [show ws.select dom text = .error e from bind_eq_error.2 (.inl hselector)]
      exact (bind_eq_error.2
        (.inr ⟨_, hstar, bind_eq_error.2 (.inl (bind_eq_error.2 (.inl hselector)))⟩)).symm
    | ok selector =>
      rw [select_eq_ok hselector]
      refine Eq.symm (bind_eq_ok.2 ⟨_, hstar, bind_eq_ok.2 ⟨_, filter_eq_ok hselector, ?_⟩⟩)
      refine congrArg Except.ok ?_
      calc
        distinct ((distinct (d.select Selector.everything)).filter (d.selectorHolds · selector))
        _ = distinct ((d.select Selector.everything).filter (d.selectorHolds · selector)) := by
          rw [← filter_distinct, ← filter_distinct, distinct_of_nodup nodup_distinct]
        _ = distinct (d.select selector) := by rw [← h.select_eq_filter]
  · rintro before after r root rfl hroot hr
    exact h.query_insert hroot hr
  · refine ⟨_, _, _, find_eq_ok hselector, find_eq_ok Selector.parse_star, filter_eq_ok hselector, ?_⟩
    have hfound (s : Selector) : (d.query c.nodes s .descendants).Nodup :=
      h.nodup_of_pairwise_listedBefore h.pairwise_query
    simp only [nodes_derive, distinct_of_nodup (hfound _), distinct_of_nodup ((hfound _).filter _)]
    exact ⟨h.query_sublist_filter, h.query_eq_filter_of_steps⟩

/-- Below a paragraph `p > b` is not found, and a search that starts above it as well finds the same as
one that starts above it only. -/
theorem scopes_agree_paragraph :
    let ws : Workspace := { documents := #[{ slots := #[
      some { kind := .element { tag := "div" }, children := [1, 3] },
      some { kind := .element { tag := "p" }, parent := some 0, children := [2] },
      some { kind := .element { tag := "b" }, parent := some 1 },
      some { kind := .element { tag := "b" }, parent := some 0 }] }] }
    let d := ws.document 0
    let c : Collection := { dom := 0, nodes := [1] }
    d.WellFormed ∧
      (∀ selector, d.query [0, 1] selector .descendants = d.query [0] selector .descendants) ∧
      Selector.parse "p > b" = .ok [.step (.compound [.tag "p"]) .child [.tag "b"]] ∧
      ∃ found kept, c.find d "p > b" = .ok found ∧ found.nodes = [] ∧
        (do let all ← c.find d "*"; all.filter d "p > b") = .ok kept ∧ kept.nodes = [2] ∧
        found.nodes.Sublist kept.nodes := by
  intro ws d c
  have h : d.WellFormed := by decide +kernel
  have hparse : Selector.parse "p > b" = .ok [.step (.compound [.tag "p"]) .child [.tag "b"]] :=
    Selector.parse_of_wellShaped (by decide) (by decide)
  obtain ⟨-, hroots, hfind⟩ := scopes_agree ws 0 h
  refine ⟨h, fun selector => (hroots [0] selector).2 [0] [] 1 0 rfl (by decide) (by decide), hparse, ?_⟩
  obtain ⟨found, all, kept, hfound, hall, hkept, hsub, -⟩ := hfind c _ _ hparse
  refine ⟨found, kept, hfound, ?_, bind_eq_ok.2 ⟨all, hall, hkept⟩, ?_, hsub⟩
  · obtain rfl := Except.ok.inj ((find_eq_ok hparse).symm.trans hfound)
    decide +kernel
  · obtain rfl := Except.ok.inj ((find_eq_ok Selector.parse_star).symm.trans hall)
    obtain rfl := Except.ok.inj ((filter_eq_ok hparse).symm.trans hkept)
    decide +kernel

end Workspace
end DomQuery
