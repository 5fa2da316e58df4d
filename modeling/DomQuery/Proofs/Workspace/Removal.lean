import DomQuery.Proofs.Document.Fragments
import DomQuery.Proofs.Workspace.Insertion

/-!
Removals. What lies below a node that is taken out cannot be found any more, wherever the roots stand,
and everything else that was visible stays so.
-/
namespace DomQuery
namespace Document
variable {d : Document} {n m a q : NodeId} {ns : List NodeId}

/-- The document without some nodes, which stay at hand but are no roots any more. -/
def takeOut (d : Document) (ns : List NodeId) : Document := (ns.foldl detach d).unregister ns

theorem parent?_takeOut (d : Document) (ns : List NodeId) (m : NodeId) :
    (d.takeOut ns).parent? m = if m ∈ ns then none else d.parent? m := parent?_foldl_detach ns d m

theorem data?_takeOut (d : Document) (ns : List NodeId) (m : NodeId) :
    (d.takeOut ns).data? m = d.data? m := data?_foldl_detach ns d m

theorem WellFormed.takeOut (h : d.WellFormed) (ns : List NodeId) : (d.takeOut ns).WellFormed :=
  (h.foldl_detach ns).of_same_slots rfl

theorem WellFormed.children_takeOut (h : d.WellFormed) (ns : List NodeId) (p : NodeId) :
    (d.takeOut ns).children p = (d.children p).filter (· ∉ ns) := h.children_foldl_detach ns p

theorem WellFormed.liesIn_takeOut (h : d.WellFormed) :
    (d.takeOut ns).LiesIn m a ↔ d.LiesIn m a ∧ ∀ r ∈ ns, d.LiesIn m r → ¬ d.isWithin r a := by
  rw [liesIn_iff, liesIn_iff]
  constructor
  · intro hm
    induction hm using Relation.ReflTransGen.head_induction_on with
    | refl =>
      refine ⟨.refl, fun r _ ha hr => ?_⟩
      rcases ha with rfl | ha
      · exact h.not_isWithin_self a hr
      · exact h.not_isWithin_of_isWithin ha hr
    | @head m p hstep _ ih =>
      obtain ⟨hp, hfree⟩ := ih
      rw [Climb.Step, parent?_takeOut] at hstep
      split at hstep
      · cases hstep
      · rename_i hm
        refine ⟨.head hstep hp, fun r hr hmr => hfree r hr ?_⟩
        rcases hmr with rfl | hmr
        · exact absurd hr hm
        · exact ((isWithin_iff_of_parent? hstep).1 hmr).imp id id
  · rintro ⟨hm, hfree⟩
    induction hm using Relation.ReflTransGen.head_induction_on with
    | refl => exact .refl
    | @head m p hstep hpa ih =>
      have hm : m ∉ ns := fun hm => hfree m hm (.inl rfl) (isWithin_iff.2 (.head' hstep hpa))
      refine .head ?_ (ih fun r hr hpr => hfree r hr (.trans (.inr (isWithin_of_parent? hstep)) hpr))
      rw [Climb.Step, parent?_takeOut, if_neg hm]
      exact hstep

theorem mem_liveRoots_takeOut : q ∈ (d.takeOut ns).liveRoots ↔ q ∈ d.liveRoots ∧ q ∉ ns := by
  have htop (hq : q ∉ ns) : (d.takeOut ns).isTopLevel q = d.isTopLevel q := by
    rw [isTopLevel, isTopLevel, parent?_takeOut, if_neg hq]
    exact congrArg (Option.all · _) (funext fun p => isFragment_congr (data?_takeOut d ns p))
  have hroots : q ∈ (d.takeOut ns).roots ↔ q ∈ d.roots ∧ q ∉ ns := by
    rw [takeOut, unregister, (extends_foldl_detach ns d).roots]
    simp
  rw [mem_liveRoots, mem_liveRoots, hroots]
  constructor
  · rintro ⟨⟨hq, hns⟩, hlive⟩
    exact ⟨⟨hq, htop hns ▸ hlive⟩, hns⟩
  · rintro ⟨⟨hq, hlive⟩, hns⟩
    exact ⟨⟨hq, hns⟩, (htop hns).trans hlive⟩

theorem FragmentsOnTop.not_isWithin (h : d.FragmentsOnTop) (hq : d.isTopLevel q)
    (ha : ¬ d.isFragment a) : ¬ d.isWithin q a := by
  intro hqa
  obtain ⟨p, hp⟩ := exists_parent?_of_isWithin hqa
  have hfragment : d.isFragment p := by simpa [isTopLevel, hp] using hq
  rcases (isWithin_iff_of_parent? hp).1 hqa with rfl | hpa
  · exact ha hfragment
  · exact h.not_isFragment_of_isWithin hpa hfragment

theorem WellFormed.visible_takeOut (h : d.WellFormed) (htop : d.FragmentsOnTop)
    (hns : ∀ r ∈ ns, ¬ d.isFragment r) :
    (d.takeOut ns).Visible n ↔ d.Visible n ∧ ∀ r ∈ ns, ¬ d.LiesIn n r := by
  constructor
  · rintro ⟨q, hq, hn⟩
    obtain ⟨hq, hqns⟩ := mem_liveRoots_takeOut.1 hq
    obtain ⟨hn, hfree⟩ := h.liesIn_takeOut.1 hn
    refine ⟨⟨q, hq, hn⟩, fun r hr hnr => ?_⟩
    -- the root and the node that was taken out are both above, so one of them is below the other
    rcases liesIn_total hn hnr with (rfl | hqr) | (rfl | hrq)
    · exact hqns hr
    · exact htop.not_isWithin (mem_liveRoots.1 hq).2 (hns r hr) hqr
    · exact hqns hr
    · exact hfree r hr hnr hrq
  · rintro ⟨⟨q, hq, hn⟩, hfree⟩
    refine ⟨q, mem_liveRoots_takeOut.2 ⟨hq, fun hqns => hfree q hqns hn⟩, ?_⟩
    exact h.liesIn_takeOut.2 ⟨hn, fun r hr hnr => absurd hnr (hfree r hr)⟩

end Document

namespace Workspace
open Document
variable {ws : Workspace} {c : Collection} {filter : Option String} {kept : Option Selector}

/-- A removal leaves nothing of the removed nodes to be found. Each of them is at the top of a tree of
its own, which is the one below it less what else was removed there, and all that is visible outside of
them stays visible. -/
theorem remove_takes_out (h : (ws.document c.dom).WellFormed)
    (htop : (ws.document c.dom).FragmentsOnTop) (hc : ws.Holds c.toSelection)
    (hkinds : ∀ n ∈ c.nodes, ¬ (ws.document c.dom).isFragment n)
    (hfilter : parseFilter filter = .ok kept) :
    let d := ws.document c.dom
    let removed := d.applyFilter kept c.nodes
    ∃ ws', ws.remove c filter = .ok ws' ∧
      let d' := ws'.document c.dom
      (∀ selector found, ws'.select c.dom selector = .ok found →
        ∀ n ∈ found.nodes, ∀ r ∈ removed, ¬ d.LiesIn n r) ∧
      (∀ r ∈ removed, d'.parent? r = none ∧
        ∀ n, d'.LiesIn n r ↔
          d.LiesIn n r ∧ ∀ nested ∈ removed, d.LiesIn n nested → ¬ d.isWithin nested r) ∧
      (∀ n, d'.data? n = d.data? n ∧ d'.children n = (d.children n).filter (· ∉ removed)) ∧
      ∀ n, d.Visible n → (∀ r ∈ removed, ¬ d.LiesIn n r) → d'.Visible n := by
  intro d removed
  refine ⟨ws.update c.dom fun d => d.takeOut (d.applyFilter kept c.nodes),
    bind_eq_ok.2 ⟨kept, hfilter, rfl⟩, ?_⟩
  rw [document_update_self hc.1]
  have hvisible (n : NodeId) :
      (d.takeOut removed).Visible n ↔ d.Visible n ∧ ∀ r ∈ removed, ¬ d.LiesIn n r :=
    h.visible_takeOut htop fun r hr => hkinds r (Collection.mem_of_mem_applyFilter hr)
  refine ⟨fun text found hfound n hn r hr => ?_, fun r hr => ⟨?_, fun n => h.liesIn_takeOut⟩,
    fun n => ⟨data?_takeOut d removed n, h.children_takeOut removed n⟩,
    fun n hn hfree => (hvisible n).2 ⟨hn, hfree⟩⟩
  · obtain ⟨selector, -, hfound⟩ := bind_eq_ok.1 hfound
    obtain rfl := Except.ok.inj hfound
    have hn := mem_distinct.1 hn
    rw [document_update_self hc.1] at hn
    exact ((hvisible n).1 ((h.takeOut _).mem_select.1 hn).1).2 r hr
  · exact (parent?_takeOut d removed r).trans (if_pos hr)

/-- A `div` and the paragraph in it are both taken out, and both are roots. -/
theorem remove_takes_out_nested :
    let ws : Workspace := { documents := #[{ slots := #[
      some { kind := .fragment, children := [1] },
      some { kind := .element { tag := "div" }, parent := some 0, children := [2, 3] },
      some { kind := .element { tag := "p" }, parent := some 1, children := [4] },
      some { kind := .text "and", parent := some 1 },
      some { kind := .element { tag := "b" }, parent := some 2 },
      some { kind := .element { tag := "i" } }], roots := [1, 2, 5] }] }
    let d := ws.document 0
    let c : Collection := { dom := 0, nodes := [1, 2] }
    d.WellFormed ∧ d.FragmentsOnTop ∧ ws.Holds c.toSelection ∧ (∀ n ∈ c.nodes, ¬ d.isFragment n) ∧
      d.Visible 4 ∧ ∃ ws', ws.remove c none = .ok ws' ∧
        (∀ selector found, ws'.select 0 selector = .ok found → 4 ∉ found.nodes) ∧
        (ws'.document 0).parent? 2 = none ∧ (ws'.document 0).children 1 = [3] ∧
        (ws'.document 0).Visible 5 := by
  intro ws d c
  have h : d.WellFormed := by decide +kernel
  have htop : d.FragmentsOnTop := by decide +kernel
  have hc : ws.Holds c.toSelection := by decide +kernel
  have hkinds : ∀ n ∈ c.nodes, ¬ d.isFragment n := by decide +kernel
  obtain ⟨ws', hremove, hfound, hremoved, hkept, hvisible⟩ :=
    @remove_takes_out ws c none none h htop hc hkinds rfl
  refine ⟨h, htop, hc, hkinds, by decide +kernel, ws', hremove, fun selector found hselect hn => ?_,
    (hremoved 2 (by decide +kernel)).1, (hkept 1).2.trans (by decide +kernel),
    hvisible 5 (by decide +kernel) (by decide +kernel)⟩
  exact hfound selector found hselect 4 hn 2 (by decide +kernel) (by decide +kernel)

end Workspace
end DomQuery
