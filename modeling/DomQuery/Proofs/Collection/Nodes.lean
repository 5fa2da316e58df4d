import DomQuery.Operation
import DomQuery.Proofs.Document.Slots
import DomQuery.Proofs.Query.Roots
import DomQuery.Proofs.Result

/-!
Where a step through a document leads. Whatever is found from nodes of a well-formed document are nodes
of it again.
-/
namespace DomQuery
namespace Document
variable {d : Document} {n m : NodeId} {ns roots : List NodeId} {selector : Selector} {scope : Scope}

theorem isElement_of_mem_query (hn : n ∈ d.query roots selector scope) : d.isElement n := by
  have hroot {root : NodeId} (hn : n ∈ d.queryRoot selector scope root) : d.isElement n := by
    obtain ⟨chain, -, hholds⟩ := List.any_eq_true.1 (List.mem_filter.1 hn).2
    exact isElement_of_chainHoldsWithin hholds
  have hroots (hn : n ∈ d.queryRoots roots selector scope) : d.isElement n := by
    rw [queryRoots_eq] at hn
    obtain ⟨root, -, hn⟩ := List.mem_flatMap.1 (List.contains_iff_mem.1 (List.mem_filter.1 hn).2)
    exact hroot hn
  unfold query at hn
  split at hn
  · exact hroot hn
  · exact hroots hn

namespace WellFormed
variable (h : d.WellFormed)
include h

theorem isAllocated_of_mem_brood (hm : m ∈ d.brood n) : d.isAllocated m := by
  rw [brood] at hm
  split at hm
  · exact h.isAllocated_child hm
  · cases hm

theorem isAllocated_of_mem_preceding (hm : m ∈ d.preceding n) : d.isAllocated m :=
  h.isAllocated_of_mem_brood ((List.takeWhile_sublist _).subset (List.mem_reverse.1 hm))

theorem isAllocated_of_mem_following (hm : m ∈ d.following n) : d.isAllocated m :=
  h.isAllocated_of_mem_brood ((List.dropWhile_sublist _).subset (List.mem_of_mem_tail hm))

theorem isAllocated_of_mem_descendants (hm : m ∈ d.descendants n) : d.isAllocated m := by
  obtain ⟨p, hp⟩ := exists_parent?_of_isWithin (h.mem_descendants_iff.1 hm)
  exact isAllocated_of_parent? hp

theorem isAllocated_of_mem_ancestors (hm : m ∈ d.ancestors n) : d.isAllocated m := by
  obtain ⟨c, hc, -⟩ := isWithin_iff_exists_liesIn.1 (List.contains_iff_mem.2 hm)
  exact h.isAllocated_parent hc

theorem isAllocated_of_mem_axis {axis : Axis} (hm : m ∈ axis.nodes d n) : d.isAllocated m := by
  have hparent (hm : d.parent? n = some m) : d.isAllocated m := h.isAllocated_parent hm
  have hhead {ms : List NodeId} (hms : ∀ m ∈ ms, d.isAllocated m) (hm : m ∈ ms.head?.toList) :
      d.isAllocated m :=
    hms m (List.mem_of_mem_head? (Option.mem_toList.1 hm))
  have hfilter {ms : List NodeId} (hms : ∀ m ∈ ms, d.isAllocated m) :
      ∀ m ∈ ms.filter d.isElement, d.isAllocated m := fun m hm => hms m (List.mem_of_mem_filter hm)
  have hchildren (m : NodeId) (hm : m ∈ d.children n) : d.isAllocated m := h.isAllocated_child hm
  have hpreceding (m : NodeId) (hm : m ∈ d.preceding n) := h.isAllocated_of_mem_preceding hm
  have hfollowing (m : NodeId) (hm : m ∈ d.following n) := h.isAllocated_of_mem_following hm
  cases axis with
  | parent => exact hparent (Option.mem_toList.1 hm)
  | parentElement => exact hparent (Option.filter_eq_some_iff.1 (Option.mem_toList.1 hm)).1
  | firstChild => exact hhead hchildren hm
  | lastChild => exact hchildren m (List.mem_of_getLast? (Option.mem_toList.1 hm))
  | previous => exact hhead hpreceding hm
  | next => exact hhead hfollowing hm
  | previousElement => exact hhead (hfilter hpreceding) hm
  | nextElement => exact hhead (hfilter hfollowing) hm
  | children => exact hchildren m hm
  | elementChildren => exact hfilter hchildren m hm
  | preceding => exact hpreceding m hm
  | following => exact hfollowing m hm
  | descendants => exact h.isAllocated_of_mem_descendants hm
  | ancestors => exact h.isAllocated_of_mem_ancestors hm

end WellFormed
end Document

/-! Steps of collections. -/

namespace Collection
variable {d : Document} {c c' : Collection} {n : NodeId}

theorem mem_of_mem_applyFilter {filter : Option Selector} {ns : List NodeId}
    (hn : n ∈ d.applyFilter filter ns) : n ∈ ns := by
  unfold Document.applyFilter at hn
  split at hn
  · exact hn
  · exact List.mem_of_mem_filter hn

/-- The collection comes from another one by one step, which gathers nodes of the document. -/
def DerivedFrom (d : Document) (c c' : Collection) : Prop :=
  ∃ ns, c' = c.derive ns ∧ ∀ n ∈ ns, d.isAllocated n

theorem derivedFrom_gather {filter : Option String} {related : NodeId → List NodeId}
    (hrelated : ∀ n ∈ c.nodes, ∀ m ∈ related n, d.isAllocated m)
    (h : c.gather d filter related = .ok c') : DerivedFrom d c c' := by
  obtain ⟨kept, -, h⟩ := bind_eq_ok.1 h
  refine ⟨_, (Except.ok.inj h).symm, fun m hm => ?_⟩
  obtain ⟨n, hn, hm⟩ := List.mem_flatMap.1 (mem_distinct.1 (mem_of_mem_applyFilter hm))
  exact hrelated n hn m hm

theorem derivedFrom_gatherUntil {stop : Target} {filter : Option String}
    {walk : NodeId → List NodeId} (hwalk : ∀ n ∈ c.nodes, ∀ m ∈ walk n, d.isAllocated m)
    (h : c.gatherUntil d stop filter walk = .ok c') : DerivedFrom d c c' := by
  obtain ⟨stop, -, h⟩ := bind_eq_ok.1 h
  exact derivedFrom_gather (fun n hn m hm => hwalk n hn m (List.takeWhile_subset _ hm)) h

theorem mem_of_mem_filterFrom {keep : Nat → NodeId → Bool} {i : Nat} {ns : List NodeId}
    (hn : n ∈ filterFrom keep i ns) : n ∈ ns := by
  induction ns generalizing i with
  | nil => cases hn
  | cons m ns ih =>
    rw [filterFrom] at hn
    split at hn
    · exact List.mem_cons.2 ((List.mem_cons.1 hn).imp_right ih)
    · exact List.mem_cons_of_mem m (ih hn)

theorem derivedFrom_pick {text : String} {pick : Selector → List NodeId}
    (hpick : ∀ selector, ∀ n ∈ pick selector, d.isAllocated n)
    (h : (do let selector ← Selector.parse text; return c.derive (pick selector)) = .ok c') :
    DerivedFrom d c c' := by
  obtain ⟨selector, -, h⟩ := bind_eq_ok.1 h
  exact ⟨_, (Except.ok.inj h).symm, hpick selector⟩

end Collection

theorem Document.WellFormed.derivedFrom {d : Document} {c c' : Collection} {step : Derivation}
    (h : d.WellFormed) (hc : ∀ n ∈ c.nodes, d.isAllocated n) (hrun : step.run d c = .ok c') :
    c' = c.back ∨ Collection.DerivedFrom d c c' := by
  have hparents (n : NodeId) (_ : n ∈ c.nodes) (m : NodeId) (hm : m ∈ d.elementAncestors n) :
      d.isAllocated m := h.isAllocated_of_mem_ancestors (List.takeWhile_subset _ (List.mem_of_mem_filter hm))
  have hbefore (n : NodeId) (_ : n ∈ c.nodes) (m : NodeId) (hm : m ∈ d.precedingElements n) :
      d.isAllocated m := h.isAllocated_of_mem_preceding (List.mem_of_mem_filter hm)
  have hbehind (n : NodeId) (_ : n ∈ c.nodes) (m : NodeId) (hm : m ∈ d.followingElements n) :
      d.isAllocated m := h.isAllocated_of_mem_following (List.mem_of_mem_filter hm)
  have hsome {ns : List NodeId} (hns : ns ⊆ c.nodes) : Collection.DerivedFrom d c (c.derive ns) :=
    ⟨ns, rfl, fun n hn => hc n (hns hn)⟩
  have heq (index : Int) : Collection.DerivedFrom d c (c.eq index) := by
    refine hsome fun n hn => ?_
    generalize (if index < 0 then (c.nodes.length : Int) + index else index) = i at hn
    split at hn
    · cases hn
    · exact List.mem_of_getElem? (Option.mem_toList.1 hn)
  cases step with
  | back => exact .inl (Except.ok.inj hrun).symm
  | find text =>
    exact .inr (Collection.derivedFrom_pick (fun _ n hn =>
      Document.isAllocated_of_isElement (Document.isElement_of_mem_query hn)) hrun)
  | filter text =>
    exact .inr (Collection.derivedFrom_pick (fun _ n hn => hc n (List.mem_of_mem_filter hn)) hrun)
  | without text =>
    exact .inr (Collection.derivedFrom_pick (fun _ n hn => hc n (List.mem_of_mem_filter hn)) hrun)
  | has text =>
    exact .inr (Collection.derivedFrom_pick (fun _ n hn => hc n (List.mem_of_mem_filter hn)) hrun)
  | closest text =>
    refine .inr (Collection.derivedFrom_pick (fun _ m hm => ?_) hrun)
    obtain ⟨n, hn, hm⟩ := List.mem_filterMap.1 hm
    cases List.mem_cons.1 (List.mem_of_find?_eq_some hm) with
    | inl heq => exact heq ▸ hc n hn
    | inr hm => exact hparents n hn m hm
  | children kept =>
    exact .inr (Collection.derivedFrom_gather (fun n _ m hm =>
      h.isAllocated_child (List.mem_of_mem_filter hm)) hrun)
  | parent kept =>
    refine .inr (Collection.derivedFrom_gather (fun n _ m hm => ?_) hrun)
    exact h.isAllocated_parent (Option.filter_eq_some_iff.1 (Option.mem_toList.1 hm)).1
  | parents kept => exact .inr (Collection.derivedFrom_gather hparents hrun)
  | parentsUntil stop kept => exact .inr (Collection.derivedFrom_gatherUntil hparents hrun)
  | siblings kept =>
    exact .inr (Collection.derivedFrom_gather (fun n _ m hm =>
      h.isAllocated_of_mem_brood (List.mem_of_mem_filter hm)) hrun)
  | next kept =>
    exact .inr (Collection.derivedFrom_gather (fun n hn m hm =>
      hbehind n hn m (List.mem_of_mem_take hm)) hrun)
  | nextAll kept => exact .inr (Collection.derivedFrom_gather hbehind hrun)
  | nextUntil stop kept => exact .inr (Collection.derivedFrom_gatherUntil hbehind hrun)
  | prev kept =>
    exact .inr (Collection.derivedFrom_gather (fun n hn m hm =>
      hbefore n hn m (List.mem_of_mem_take hm)) hrun)
  | prevAll kept =>
    exact .inr (Collection.derivedFrom_gather (fun n hn m hm =>
      hbefore n hn m (List.mem_reverse.1 hm)) hrun)
  | prevUntil stop kept => exact .inr (Collection.derivedFrom_gatherUntil hbefore hrun)
  | contents =>
    obtain rfl := Except.ok.inj hrun
    refine .inr ⟨_, rfl, fun m hm => ?_⟩
    obtain ⟨n, -, hm⟩ := List.mem_flatMap.1 hm
    exact h.isAllocated_child hm
  | first =>
    obtain rfl := Except.ok.inj hrun
    exact .inr (heq 0)
  | last =>
    obtain rfl := Except.ok.inj hrun
    exact .inr (heq (-1))
  | slice start stop =>
    obtain rfl := Except.ok.inj hrun
    exact .inr (hsome fun n hn => List.mem_of_mem_take (List.mem_of_mem_drop hn))
  | eq index =>
    obtain rfl := Except.ok.inj hrun
    exact .inr (heq index)
  | filterBy predicate =>
    obtain rfl := Except.ok.inj hrun
    exact .inr (hsome fun n hn => Collection.mem_of_mem_filterFrom hn)
  | withoutBy predicate =>
    obtain rfl := Except.ok.inj hrun
    exact .inr (hsome fun n hn => Collection.mem_of_mem_filterFrom hn)

end DomQuery
