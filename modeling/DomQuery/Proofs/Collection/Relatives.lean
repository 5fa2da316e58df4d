import DomQuery.Proofs.Distinct
import DomQuery.Proofs.Matching.Positions
import DomQuery.Proofs.Workspace.Refusals
import DomQuery.Proofs.Workspace.Wrapping

/-!
Walks to siblings and ancestors. The siblings of a node are what is before it and what is after it, and
going on and going back undo each other. A walk that is given an end is the longest beginning of the whole
walk without a node to end at; and from several nodes each walk finds what it finds from every one of them.
-/
namespace DomQuery

/-- What a target points at in a document. A selector points at what it selects, and a collection of
another document at nothing. -/
def Target.PointsAt (d : Document) (dom : DomId) (n : NodeId) : Target → Prop
  | .selector text => ∃ s, Selector.parse text = .ok s ∧ d.selectorHolds n s
  | .nodes ns => n ∈ ns
  | .collection c => c.dom = dom ∧ n ∈ c.nodes

/-- The longest beginning of a walk that none of the ends is in. -/
structure LongestRun (ends : NodeId → Prop) (walk run : List NodeId) : Prop where
  begins : run <+: walk
  spared : ∀ n ∈ run, ¬ ends n
  longest : ∀ other, other <+: walk → (∀ n ∈ other, ¬ ends n) → other <+: run

/-- What is found on a walk that ends before the first node that the target points at. The filter comes
afterwards, so a node that it drops ends the walk all the same. -/
structure CutShort (d : Document) (dom : DomId) (stop : Target) (kept : Option String)
    (walk : List NodeId) (answer : Except SelectorError Collection) : Prop where
  eq_error_iff : ∀ e, answer = .error e ↔ Unreadable (stop.selectors ++ kept.toList) e
  nodes_eq : ∀ {found filter}, answer = .ok found → parseFilter kept = .ok filter →
    ∃ run, LongestRun (stop.PointsAt d dom) walk run ∧
      found.nodes = run.filter fun n => filter.all (d.selectorHolds n)

def Derivation.IsWalk : Derivation → Prop
  | .parent _ => True
  | .parents _ => True
  | .parentsUntil _ _ => True
  | .siblings _ => True
  | .next _ => True
  | .nextAll _ => True
  | .nextUntil _ _ => True
  | .prev _ => True
  | .prevAll _ => True
  | .prevUntil _ _ => True
  | _ => False

namespace Document
variable {d : Document} {n m p : NodeId} {left right : List NodeId}

/-- Between an element and the next one under the same parent stand only texts and comments. -/
def Adjacent (d : Document) (n m : NodeId) : Prop :=
  ∃ p left gap right, d.children p = left ++ n :: gap ++ m :: right ∧ ∀ g ∈ gap, ¬ d.isElement g

/-- How the walks from nodes to what is around them fit together. -/
structure WalksFit (d : Document) : Prop where
  siblings_eq : ∀ {c : Collection} {n}, c.nodes = [n] → ∃ all before after,
    c.siblings d none = .ok all ∧ c.prevAll d none = .ok before ∧ c.nextAll d none = .ok after ∧
      all.nodes = before.nodes ++ after.nodes ∧ all.nodes.Pairwise d.Precedes ∧
      (∀ m ∈ before.nodes, d.Precedes m n) ∧ (∀ m ∈ after.nodes, d.Precedes n m) ∧
      ∀ m, m ∈ all.nodes ↔
        d.isElement m ∧ m ≠ n ∧ ∃ p, d.parent? n = some p ∧ d.parent? m = some p
  next_iff_prev : ∀ {a b : Collection} {n m}, a.nodes = [n] → b.nodes = [m] → d.isElement n →
    d.isElement m → ∃ next prev, a.next d none = .ok next ∧ b.prev d none = .ok prev ∧
      (next.nodes = [m] ↔ prev.nodes = [n]) ∧ (next.nodes = [m] ↔ d.Adjacent n m)
  nextUntil_cuts : ∀ {c : Collection} {n}, c.nodes = [n] → ∃ all, c.nextAll d none = .ok all ∧
    ∀ stop kept, CutShort d c.dom stop kept all.nodes (c.nextUntil d stop kept)
  prevUntil_cuts : ∀ {c : Collection} {n}, c.nodes = [n] → ∃ all, c.prevAll d none = .ok all ∧
    ∀ stop kept, CutShort d c.dom stop kept all.nodes.reverse (c.prevUntil d stop kept)
  parentsUntil_cuts : ∀ {c : Collection} {n}, c.nodes = [n] → ∃ all, c.parents d none = .ok all ∧
    ∀ stop kept, CutShort d c.dom stop kept all.nodes (c.parentsUntil d stop kept)
  /-- The first error is the answer if there is one. -/
  concat : ∀ {c : Collection} {step : Derivation}, step.IsWalk → c.nodes ≠ [] →
    step.run d c = (c.nodes.mapM fun n => step.run d { c with nodes := [n] }).map fun found =>
      c.derive (found.flatMap (·.nodes))

/-! From one node. -/

theorem take_one_eq_iff {xs : List NodeId} : xs.take 1 = [n] ↔ xs.head? = some n := by
  cases xs <;> simp

theorem pairwise_precedes_siblings (d : Document) (n : NodeId) : (d.siblings n).Pairwise d.Precedes := by
  rw [siblings, brood]
  split
  · refine List.pairwise_iff_forall_sublist.2 fun {a b} hab => ?_
    exact .beside (hab.trans List.filter_sublist) (.inl rfl) (.inl rfl)
  · exact List.Pairwise.nil

namespace WellFormed
variable (h : d.WellFormed)
include h

theorem siblings_eq (n : NodeId) :
    d.siblings n = (d.precedingElements n).reverse ++ d.followingElements n := by
  rw [siblings, precedingElements, followingElements]
  cases hp : d.parent? n with
  | none =>
    obtain ⟨hbefore, hafter⟩ := h.orderedForest.siblings_of_parent?_eq_none hp
    rw [hbefore, hafter, brood, hp]
    rfl
  | some p =>
    obtain ⟨left, right, hchildren⟩ := List.append_of_mem (h.parent?_eq_some_iff.1 hp)
    have hnodup := h.nodup_children p
    rw [hchildren, List.nodup_middle, List.nodup_cons, List.mem_append, not_or] at hnodup
    obtain ⟨⟨hleft, hright⟩, -⟩ := hnodup
    have hother {xs : List NodeId} (hn : n ∉ xs) :
        xs.filter (fun s => d.isElement s && s ≠ n) = xs.filter d.isElement :=
      List.filter_congr fun s hs => by simp [ne_of_mem_of_not_mem hs hn]
    rw [h.preceding_of_children hchildren, h.following_of_children hchildren, List.filter_reverse,
      List.reverse_reverse, brood, hp]
    dsimp only
    rw [hchildren, List.filter_append, List.filter_cons_of_neg (by simp), hother hleft, hother hright]

theorem mem_siblings_iff : m ∈ d.siblings n ↔
    d.isElement m ∧ m ≠ n ∧ ∃ p, d.parent? n = some p ∧ d.parent? m = some p := by
  rw [siblings, List.mem_filter, brood]
  cases hp : d.parent? n with
  | none => simp
  | some p =>
    simp only [Option.some.injEq, exists_eq_left', h.parent?_eq_some_iff, Bool.and_eq_true,
      decide_eq_true_eq]
    exact and_comm.trans and_assoc

theorem nodup_siblings (n : NodeId) : (d.siblings n).Nodup :=
  nodup_of_pairwise (fun _ _ => h.precedes_asymm) (pairwise_precedes_siblings d n)

theorem nodup_precedingElements (n : NodeId) : (d.precedingElements n).Nodup := by
  have hnodup := h.nodup_siblings n
  rw [h.siblings_eq] at hnodup
  exact List.nodup_reverse.1 (List.nodup_append.1 hnodup).1

theorem nodup_followingElements (n : NodeId) : (d.followingElements n).Nodup := by
  have hnodup := h.nodup_siblings n
  rw [h.siblings_eq] at hnodup
  exact (List.nodup_append.1 hnodup).2.1

theorem nodup_elementAncestors (n : NodeId) : (d.elementAncestors n).Nodup := by
  have hnodup := (List.nodup_cons.1 (h.nodup_trail d.slots.size n)).2
  rw [← ancestors_eq_trail] at hnodup
  exact hnodup.sublist (List.filter_sublist.trans (List.takeWhile_sublist _))

theorem precedes_of_mem_precedingElements (hm : m ∈ d.precedingElements n) : d.Precedes m n := by
  have hm := List.mem_of_mem_filter hm
  cases hp : d.parent? n with
  | none =>
    rw [(h.orderedForest.siblings_of_parent?_eq_none hp).1] at hm
    cases hm
  | some p =>
    obtain ⟨left, right, hchildren⟩ := List.append_of_mem (h.parent?_eq_some_iff.1 hp)
    rw [h.preceding_of_children hchildren, List.mem_reverse] at hm
    have hpair : [m, n].Sublist (d.children p) := by
      rw [hchildren]
      exact (List.singleton_sublist.2 hm).append (List.singleton_sublist.2 List.mem_cons_self)
    exact .beside hpair (.inl rfl) (.inl rfl)

theorem precedes_of_mem_followingElements (hm : m ∈ d.followingElements n) : d.Precedes n m := by
  have hm := List.mem_of_mem_filter hm
  cases hp : d.parent? n with
  | none =>
    rw [(h.orderedForest.siblings_of_parent?_eq_none hp).2] at hm
    cases hm
  | some p =>
    obtain ⟨left, right, hchildren⟩ := List.append_of_mem (h.parent?_eq_some_iff.1 hp)
    rw [h.following_of_children hchildren] at hm
    have hpair : [n, m].Sublist (d.children p) := by
      rw [hchildren]
      exact ((List.singleton_sublist.2 hm).cons_cons n).trans (List.sublist_append_right _ _)
    exact .beside hpair (.inl rfl) (.inl rfl)

/-- The next element stands behind the node, with no other element in between. -/
theorem next_eq_iff (hm : d.isElement m) :
    (d.followingElements n).take 1 = [m] ↔ d.Adjacent n m := by
  rw [take_one_eq_iff, followingElements, List.head?_filter, List.find?_eq_some_iff_append]
  constructor
  · rintro ⟨-, gap, right, hfollowing, hgap⟩
    cases hp : d.parent? n with
    | none =>
      rw [(h.orderedForest.siblings_of_parent?_eq_none hp).2] at hfollowing
      simp at hfollowing
    | some p =>
      obtain ⟨left, behind, hchildren⟩ := List.append_of_mem (h.parent?_eq_some_iff.1 hp)
      rw [h.following_of_children hchildren] at hfollowing
      exact ⟨p, left, gap, right, by simp [hchildren, hfollowing], by simpa using hgap⟩
  · rintro ⟨p, left, gap, right, hchildren, hgap⟩
    rw [List.append_assoc, List.cons_append] at hchildren
    exact ⟨hm, gap, right, h.following_of_children hchildren, by simpa using hgap⟩

theorem prev_eq_iff (hn : d.isElement n) :
    (d.precedingElements m).take 1 = [n] ↔ d.Adjacent n m := by
  rw [take_one_eq_iff, precedingElements, List.head?_filter, List.find?_eq_some_iff_append]
  constructor
  · rintro ⟨-, gap, left, hpreceding, hgap⟩
    cases hp : d.parent? m with
    | none =>
      rw [(h.orderedForest.siblings_of_parent?_eq_none hp).1] at hpreceding
      simp at hpreceding
    | some p =>
      obtain ⟨before, right, hchildren⟩ := List.append_of_mem (h.parent?_eq_some_iff.1 hp)
      rw [h.preceding_of_children hchildren, List.reverse_eq_iff] at hpreceding
      refine ⟨p, left.reverse, gap.reverse, right, ?_, by simpa using hgap⟩
      simp [hchildren, hpreceding]
  · rintro ⟨p, left, gap, right, hchildren, hgap⟩
    refine ⟨hn, gap.reverse, left.reverse, ?_, by simpa using hgap⟩
    rw [h.preceding_of_children hchildren]
    simp

end WellFormed
end Document

/-! Walks that end early. -/

section Runs
variable {d : Document} {dom : DomId} {n : NodeId} {stop : Target} {matcher : Matcher}
  {walk : List NodeId}

theorem longestRun_takeWhile {ends : NodeId → Prop} {isEnd : NodeId → Bool}
    (hends : ∀ n, isEnd n ↔ ends n) (walk : List NodeId) :
    LongestRun ends walk (walk.takeWhile (!isEnd ·)) where
  begins := List.takeWhile_prefix _
  spared n hn hend := by
    have hnot := List.all_eq_true.1 List.all_takeWhile n hn
    rw [(hends n).2 hend] at hnot
    exact absurd hnot Bool.false_ne_true
  longest other hother hspared := by
    obtain ⟨rest, rfl⟩ := hother
    have hnot (n : NodeId) (hn : n ∈ other) : !isEnd n := by
      simpa using fun hend => hspared n hn ((hends n).1 hend)
    rw [List.takeWhile_append_of_pos hnot]
    exact List.prefix_append _ _

theorem holds_iff_pointsAt (hstop : stop.matcher dom = .ok matcher) :
    matcher.holds d n ↔ stop.PointsAt d dom n := by
  cases stop with
  | selector text =>
    obtain ⟨s, hs, rfl⟩ := map_eq_ok.1 hstop
    simp [Matcher.holds, Target.PointsAt, hs]
  | nodes ns =>
    obtain rfl := Except.ok.inj hstop
    simp [Matcher.holds, Target.PointsAt]
  | collection c =>
    obtain rfl := Except.ok.inj hstop
    by_cases hdom : c.dom = dom <;> simp [Matcher.holds, Target.PointsAt, hdom]

end Runs

/-! From several nodes. -/

theorem mapM_map {ε α β γ : Type} (x : Except ε α) (f : β → α → γ) {ys : List β} (hys : ys ≠ []) :
    (ys.mapM fun y => x.map (f y)) = x.map fun a => ys.map (f · a) := by
  cases x with
  | error e =>
    obtain ⟨y, rest, rfl⟩ := List.exists_cons_of_ne_nil hys
    rw [List.mapM_cons]
    rfl
  | ok a =>
    clear hys
    induction ys with
    | nil => rfl
    | cons y rest ih =>
      rw [List.mapM_cons, ih]
      rfl

theorem Document.applyFilter_eq (d : Document) (filter : Option Selector) (ns : List NodeId) :
    d.applyFilter filter ns = ns.filter fun n => filter.all (d.selectorHolds n) := by
  cases filter <;> simp [Document.applyFilter]

namespace Collection
open Document
variable {c : Collection} {d : Document} {kept : Option String} {stop : Target} {n : NodeId}
  {related walk : NodeId → List NodeId}

theorem derive_distinct (ns : List NodeId) : c.derive (distinct ns) = c.derive ns := by
  rw [derive, derive, deriveIn, deriveIn, distinct_of_nodup nodup_distinct]

theorem gather_eq (c : Collection) (d : Document) (kept : Option String)
    (related : NodeId → List NodeId) : c.gather d kept related = (parseFilter kept).map fun filter =>
      c.derive (c.nodes.flatMap fun n => d.applyFilter filter (related n)) := by
  have hkept (filter : Option Selector) :
      c.derive (d.applyFilter filter (distinct (c.nodes.flatMap related))) =
        c.derive (c.nodes.flatMap fun n => d.applyFilter filter (related n)) := by
    simp only [applyFilter_eq, filter_distinct, derive_distinct, List.filter_flatMap]
  rw [gather]
  simp only [hkept]
  cases parseFilter kept <;> rfl

theorem gatherUntil_eq (c : Collection) (d : Document) (stop : Target) (kept : Option String)
    (walk : NodeId → List NodeId) : c.gatherUntil d stop kept walk =
      (do return (← stop.matcher c.dom, ← parseFilter kept)).map fun read : Matcher × _ =>
        c.derive (c.nodes.flatMap fun n =>
          d.applyFilter read.2 ((walk n).takeWhile (!read.1.holds d ·))) := by
  rw [gatherUntil]
  simp only [gather_eq]
  cases stop.matcher c.dom with
  | error e => rfl
  | ok matcher => cases parseFilter kept <;> rfl

theorem derive_concat {ε α : Type} (hc : c.nodes ≠ []) (x : Except ε α)
    (found : α → NodeId → List NodeId) :
    (x.map fun a => c.derive (c.nodes.flatMap (found a))) =
      (c.nodes.mapM fun n => x.map fun a =>
        ({ c with nodes := [n] } : Collection).derive ([n].flatMap (found a))).map
          fun parts => c.derive (parts.flatMap (·.nodes)) := by
  rw [mapM_map x (fun n a => ({ c with nodes := [n] } : Collection).derive ([n].flatMap (found a))) hc]
  cases x with
  | error e => rfl
  | ok a =>
    refine congrArg Except.ok ?_
    simp only [List.flatMap_map, nodes_derive, List.flatMap_singleton]
    rw [derive, derive, deriveIn, deriveIn, distinct_flatMap_distinct]

theorem gather_concat (hc : c.nodes ≠ []) : c.gather d kept related =
    (c.nodes.mapM fun n => ({ c with nodes := [n] } : Collection).gather d kept related).map
      fun found => c.derive (found.flatMap (·.nodes)) := by
  simp only [gather_eq]
  exact derive_concat hc _ _

theorem gatherUntil_concat (hc : c.nodes ≠ []) : c.gatherUntil d stop kept walk =
    (c.nodes.mapM fun n => ({ c with nodes := [n] } : Collection).gatherUntil d stop kept walk).map
      fun found => c.derive (found.flatMap (·.nodes)) := by
  simp only [gatherUntil_eq]
  exact derive_concat hc _ _

theorem run_concat {step : Derivation} (hstep : step.IsWalk) (hc : c.nodes ≠ []) :
    step.run d c = (c.nodes.mapM fun n => step.run d { c with nodes := [n] }).map fun found =>
      c.derive (found.flatMap (·.nodes)) := by
  cases step with
  | parent kept => exact gather_concat hc
  | parents kept => exact gather_concat hc
  | parentsUntil stop kept => exact gatherUntil_concat hc
  | siblings kept => exact gather_concat hc
  | next kept => exact gather_concat hc
  | nextAll kept => exact gather_concat hc
  | nextUntil stop kept => exact gatherUntil_concat hc
  | prev kept => exact gather_concat hc
  | prevAll kept => exact gather_concat hc
  | prevUntil stop kept => exact gatherUntil_concat hc
  | _ => exact absurd hstep id

/-! What is found from one node. -/

theorem exists_gather (related : NodeId → List NodeId) (hc : c.nodes = [n])
    (hnodup : (related n).Nodup) :
    ∃ found, c.gather d none related = .ok found ∧ found.nodes = related n := by
  refine ⟨_, gather_eq c d none related, ?_⟩
  rw [nodes_derive, hc, List.flatMap_singleton, applyFilter_eq, distinct_of_nodup (hnodup.filter _)]
  exact List.filter_eq_self.2 fun _ _ => rfl

theorem gatherUntil_cutShort (hc : c.nodes = [n]) (hnodup : (walk n).Nodup) :
    CutShort d c.dom stop kept (walk n) (c.gatherUntil d stop kept walk) where
  eq_error_iff _ := gatherUntil_eq_error
  nodes_eq {found filter} hfound hfilter := by
    obtain ⟨matcher, hmatcher, hfound⟩ := bind_eq_ok.1 hfound
    rw [gather_eq, hfilter] at hfound
    obtain rfl := Except.ok.inj hfound
    refine ⟨_, longestRun_takeWhile (fun _ => holds_iff_pointsAt hmatcher) (walk n), ?_⟩
    rw [nodes_derive, hc, List.flatMap_singleton, applyFilter_eq]
    exact distinct_of_nodup ((hnodup.sublist (List.takeWhile_sublist _)).filter _)

end Collection

namespace Document
open Collection

theorem WellFormed.walksFit {d : Document} (h : d.WellFormed) : d.WalksFit where
  siblings_eq {c n} hc := by
    obtain ⟨all, hall, hallEq⟩ := exists_gather d.siblings hc (h.nodup_siblings n)
    obtain ⟨before, hbefore, hbeforeEq⟩ := exists_gather (fun n => (d.precedingElements n).reverse) hc
      (List.nodup_reverse.2 (h.nodup_precedingElements n))
    obtain ⟨after, hafter, hafterEq⟩ :=
      exists_gather d.followingElements hc (h.nodup_followingElements n)
    refine ⟨all, before, after, hall, hbefore, hafter, ?_⟩
    rw [hallEq, hbeforeEq, hafterEq]
    refine ⟨h.siblings_eq n, pairwise_precedes_siblings d n, fun m hm => ?_, fun m hm => ?_,
      fun m => h.mem_siblings_iff⟩
    · exact h.precedes_of_mem_precedingElements (List.mem_reverse.1 hm)
    · exact h.precedes_of_mem_followingElements hm
  next_iff_prev {a b n m} ha hb hn hm := by
    have hnodup := (h.nodup_followingElements n).sublist (List.take_sublist 1 _)
    obtain ⟨next, hnext, hnextEq⟩ := exists_gather (fun n => (d.followingElements n).take 1) ha hnodup
    have hnodup := (h.nodup_precedingElements m).sublist (List.take_sublist 1 _)
    obtain ⟨prev, hprev, hprevEq⟩ := exists_gather (fun n => (d.precedingElements n).take 1) hb hnodup
    refine ⟨next, prev, hnext, hprev, ?_⟩
    rw [hnextEq, hprevEq, h.next_eq_iff hm, h.prev_eq_iff hn]
    exact ⟨Iff.rfl, Iff.rfl⟩
  nextUntil_cuts {c n} hc := by
    have hnodup := h.nodup_followingElements n
    obtain ⟨all, hall, hallEq⟩ := exists_gather d.followingElements hc hnodup
    refine ⟨all, hall, fun stop kept => ?_⟩
    rw [hallEq]
    exact gatherUntil_cutShort hc hnodup
  prevUntil_cuts {c n} hc := by
    have hnodup := h.nodup_precedingElements n
    obtain ⟨all, hall, hallEq⟩ := exists_gather (fun n => (d.precedingElements n).reverse) hc
      (List.nodup_reverse.2 hnodup)
    refine ⟨all, hall, fun stop kept => ?_⟩
    rw [hallEq, List.reverse_reverse]
    exact gatherUntil_cutShort hc hnodup
  parentsUntil_cuts {c n} hc := by
    have hnodup := h.nodup_elementAncestors n
    obtain ⟨all, hall, hallEq⟩ := exists_gather d.elementAncestors hc hnodup
    refine ⟨all, hall, fun stop kept => ?_⟩
    rw [hallEq]
    exact gatherUntil_cutShort hc hnodup
  concat hstep hc := run_concat hstep hc

/-- Elements between texts and comments at the top of a forest, a target of another document, the siblings of
two nodes at once, and a way up that ends at an element the filter would drop. -/
theorem walksFit_mixed :
    let d : Document := { slots := #[
      some { kind := .fragment, children := [1, 2, 3, 4, 5] },
      some { kind := .text "a", parent := some 0 },
      some { kind := .element { tag := "li" }, parent := some 0 },
      some { kind := .comment "b", parent := some 0 },
      some { kind := .element { tag := "p" }, parent := some 0, children := [6] },
      some { kind := .element { tag := "li" }, parent := some 0 },
      some { kind := .element { tag := "b" }, parent := some 4, children := [7] },
      some { kind := .element { tag := "i" }, parent := some 6, children := [8] },
      some { kind := .text "c", parent := some 7 }] }
    let c : Collection := { dom := 0, nodes := [2] }
    let foreign : Target := .collection { dom := 1, nodes := [4] }
    let text : Collection := { dom := 0, nodes := [8] }
    let stop : Target := .selector "b"
    d.WellFormed ∧ d.Adjacent 2 4 ∧ (∃ next, c.next d none = .ok next ∧ next.nodes = [4]) ∧
      CutShort d 0 foreign none [4, 5] (c.nextUntil d foreign none) ∧
      (stop.PointsAt d 0 6 ∧ CutShort d 0 stop (some "i, p") [7, 6, 4] (text.parentsUntil d stop (some "i, p")) ∧
        ∃ found, text.parentsUntil d stop (some "i, p") = .ok found ∧ found.nodes = [7]) ∧
      ∃ all, ({ dom := 0, nodes := [4, 2] } : Collection).siblings d none = .ok all ∧
        all.nodes = [2, 5, 4] := by
  intro d c foreign text stop
  have h : d.WellFormed := by decide +kernel
  have hadjacent : d.Adjacent 2 4 := ⟨0, [1], [3], [5], by decide +kernel, by decide +kernel⟩
  obtain ⟨next, prev, hnext, -, -, hiff⟩ :=
    h.walksFit.next_iff_prev (a := c) (b := { dom := 0, nodes := [4] }) rfl rfl
      (by decide +kernel) (by decide +kernel)
  obtain ⟨all, hall, hcut⟩ := h.walksFit.nextUntil_cuts (c := c) rfl
  have hwalk : all.nodes = [4, 5] := by
    obtain rfl := Except.ok.inj hall
    decide +kernel
  obtain ⟨parents, hparents, hup⟩ := h.walksFit.parentsUntil_cuts (c := text) rfl
  have hway : parents.nodes = [7, 6, 4] := by
    obtain rfl := Except.ok.inj hparents
    decide +kernel
  have hwalks : (Derivation.siblings none).IsWalk := trivial
  have hconcat := h.walksFit.concat (c := { dom := 0, nodes := [4, 2] }) hwalks nofun
  have hstop : Selector.parse "b" = .ok [.compound [.tag "b"]] :=
    Selector.parse_of_wellShaped (by decide) (by decide)
  have hkept : Selector.parse "i, p" = .ok [.compound [.tag "i"], .compound [.tag "p"]] :=
    Selector.parse_of_wellShaped (by decide) (by decide)
  have hfound := gatherUntil_eq text d stop (some "i, p") d.elementAncestors
  simp only [stop, Target.matcher, parseFilter, hstop, hkept] at hfound
  exact ⟨h, hadjacent, ⟨next, hnext, hiff.2 hadjacent⟩, hwalk ▸ hcut foreign none,
    ⟨⟨_, hstop, by decide +kernel⟩, hway ▸ hup stop (some "i, p"), _, hfound, by decide +kernel⟩, _, hconcat,
    by decide +kernel⟩

end Document
end DomQuery
