import DomQuery.Proofs.Query.Wrapping
import DomQuery.Proofs.Selector.Canonical
import DomQuery.Proofs.Selector.RoundTrip
import DomQuery.Proofs.Workspace.Insertion

/-!
Wrappings. Around and inside visible nodes a wrapping hides nothing, as long as the wrapper has a place
to stand. A root that is wrapped is found below its wrapper, which stands behind all earlier roots.
-/
namespace DomQuery

def Selector.everything : Selector := [.compound [.universal]]

theorem Selector.parse_of_wellShaped {selector : Selector} {text : String}
    (h : Selector.WellShaped selector) (htext : Selector.chars selector = text.toList) :
    Selector.parse text = .ok selector := by
  obtain ⟨-, hlegible, hstable⟩ := sound_of_wellShaped h
  exact parse_eq_ok_iff.2 (htext ▸ read_chars hlegible hstable)

theorem Selector.parse_star : Selector.parse "*" = .ok Selector.everything :=
  parse_of_wellShaped (by decide) rfl

namespace Document
variable {d : Document} {n : NodeId}

theorem WellFormed.mem_select_everything (h : d.WellFormed) :
    n ∈ d.select Selector.everything ↔ d.Visible n ∧ d.isElement n := by
  rw [h.mem_select]
  refine and_congr_right fun _ => ⟨fun ⟨_, _, hholds⟩ => isElement_of_chainHoldsWithin hholds, ?_⟩
  intro helement
  obtain ⟨e, he⟩ := Option.isSome_iff_exists.1 helement
  exact ⟨_, List.mem_cons_self, chainHolds_compound he⟩

end Document

namespace Workspace
open Document
variable {ws ws' : Workspace} {dom : DomId} {c : Collection} {content : Content} {n : NodeId}

def found (ws : Workspace) (dom : DomId) : List NodeId := (ws.document dom).select Selector.everything

theorem Sound.select_star (h : ws.Sound) (dom : DomId) :
    ∃ c, ws.select dom "*" = .ok c ∧ c.nodes = ws.found dom := by
  have hd := (h.document dom).toWellFormed
  refine ⟨.ofNodes dom (ws.found dom), bind_eq_ok.2 ⟨_, Selector.parse_star, rfl⟩, ?_⟩
  exact distinct_of_nodup (hd.nodup_of_pairwise_listedBefore hd.pairwise_query)

theorem Sound.mem_found (h : ws.Sound) :
    n ∈ ws.found dom ↔ (ws.document dom).Visible n ∧ (ws.document dom).isElement n :=
  (h.document dom).toWellFormed.mem_select_everything

theorem Sound.mem_found_of_evolves (h : ws.Sound) (hevolves : ws.Evolves (fun _ _ => False) ws')
    (hvisible : ∀ m, (ws.document dom).Visible m → (ws'.document dom).Visible m)
    (hn : n ∈ ws.found dom) : n ∈ ws'.found dom := by
  obtain ⟨hn, helement⟩ := h.mem_found.1 hn
  refine hevolves.sound.mem_found.2 ⟨hvisible n hn, ?_⟩
  rwa [isElement_congr ((hevolves.document dom).data? n (isAllocated_of_isElement helement) id)]

/-- Content with an element, the first of which wrappers are copied from. -/
def HasTemplate (ws : Workspace) (dom : DomId) (content : Content) : Prop :=
  ∃ n ∈ (ws.nodesOf dom content).2, ((ws.nodesOf dom content).1.document dom).isElement n

instance (ws : Workspace) (dom : DomId) (content : Content) : Decidable (ws.HasTemplate dom content) :=
  inferInstanceAs (Decidable (∃ n ∈ _, _))

section Wrapped
variable (h : ws.Sound) (hc : ws.Holds c.toSelection) (hcontent : ws.HoldsContent c.dom content)
  (htemplate : ws.HasTemplate c.dom content)
include h hc hcontent htemplate

/-- A wrapping copies an element of a document that has grown, and what it frees at the end is of no
account. -/
theorem Sound.exists_wrapWith {wrap : Document → NodeId → Document}
    (hwrap : ∀ (d : Document) (template : NodeId) (S : NodeId → Prop), d.WellFormed →
      (∀ n, S n → n < d.fresh) → d.Split S → (∀ n ∈ c.nodes, d.isAllocated n ∧ ¬ S n) →
      d.Moves S (¬ S ·) (wrap d template)) :
    ∃ read template, (ws.document c.dom).Grows read ∧ read.Sound ∧ read.isElement template ∧
      (∀ m, (wrap read template).Visible m →
        ((ws.wrapWith c content wrap).document c.dom).Visible m) ∧
      ∀ trees, (ws.document c.dom).Rearranges (wrap read template) trees →
        (ws.document c.dom).Rearranges ((ws.wrapWith c content wrap).document c.dom) trees := by
  have hdom := hc.1
  have hd := h.document c.dom
  have hgrows := h.grows_nodesOf hdom hcontent
  have hsize : (ws.nodesOf c.dom content).1.documents.size = ws.documents.size :=
    (differsAt_nodesOf hdom content).size_eq
  obtain ⟨template, hfind⟩ : ∃ template, (ws.nodesOf c.dom content).2.find?
      ((ws.nodesOf c.dom content).1.document c.dom).isElement = some template := by
    rwa [← Option.isSome_iff_exists, List.find?_isSome]
  refine ⟨(ws.nodesOf c.dom content).1.document c.dom, template, hgrows, ?_, List.find?_some hfind, ?_⟩
  · cases hmarkup : content.isMarkup with
    | true =>
      obtain ⟨text, rfl⟩ := exists_markup hmarkup
      rw [(nodesOf_markup hdom text).2.1]
      exact (hd.evolves_of_adds (E := fun _ => False) (hd.toWellFormed.parse text).1).sound
    | false => exact (h.nodesOf (E := fun _ _ => False) hdom hcontent hmarkup).2.1.sound
  rw [wrapWith, document_update_self (hsize.symm ▸ hdom)]
  dsimp only
  rw [hfind]
  cases hmarkup : content.isMarkup with
  | true =>
    obtain ⟨text, rfl⟩ := exists_markup hmarkup
    obtain ⟨-, hdocument, hnodes⟩ := nodesOf_markup hdom text
    obtain ⟨hadds, hscratch⟩ := hd.toWellFormed.parse text
    rw [if_pos rfl, hdocument, hnodes]
    have hmoves := hwrap _ template _ hadds.wellFormed (fun n hn => hn.2) hadds.split fun n hn =>
      ⟨hadds.grows.toExtends.isAllocated (hc.2 n hn),
        fun hin => Nat.not_lt_of_le hin.1 (lt_fresh (hc.2 n hn))⟩
    have hM (hne : ((ws.document c.dom).parse text).2 ≠ []) (x : NodeId)
        (hx : ((ws.document c.dom).parse text).1.LiesIn (ws.document c.dom).fresh x) :
        ¬ ¬ ((ws.document c.dom).fresh ≤ x ∧ x < ((ws.document c.dom).parse text).1.fresh) := by
      obtain ⟨n, hn⟩ := List.exists_mem_of_ne_nil _ hne
      have hcontainer := lt_fresh (hadds.wellFormed.isAllocated_parent (hscratch n hn))
      exact not_not_intro ((hadds.split.iff_of_liesIn hx).1 ⟨Nat.le_refl _, hcontainer⟩)
    exact ⟨fun m => hd.visible_discardScratch hadds hscratch hmoves hM,
      fun trees => hd.rearranges_discardScratch hadds hscratch hmoves hM⟩
  | false => exact ⟨fun _ => id, fun _ => id⟩

/-! The three wrappings of visible nodes. -/

variable (hvisible : ∀ t ∈ c.nodes, (ws.document c.dom).Visible t)
include hvisible

theorem Sound.rearranges_wrap (hparents : ∀ n ∈ c.nodes, ((ws.document c.dom).parent? n).isSome) :
    (ws.document c.dom).Rearranges ((ws.wrap c content).document c.dom)
      (((ws.document c.dom).regrouped c.nodes).map (ws.document c.dom).top) := by
  have hd := h.document c.dom
  obtain ⟨read, template, hgrows, hread, helement, -, hfinal⟩ := h.exists_wrapWith hc hcontent htemplate
    fun d template S hd hS hsplit hns => hd.wrapEach hS hsplit hns template
  refine hfinal _ ?_
  rw [← hd.regrouped_of_grows hgrows hread.toWellFormed]
  refine (hd.rearranges_of_grows hgrows hread.toWellFormed).trans
    (hread.rearranges_wrapEach helement fun n hn => ⟨?_, hd.visible_of_grows hgrows (hvisible n hn)⟩)
    hgrows.fresh_le
  rw [hgrows.parent?_of_lt (lt_fresh (hc.2 n hn))]
  exact hparents n hn

theorem Sound.rearranges_wrapInner :
    (ws.document c.dom).Rearranges ((ws.wrapInner c content).document c.dom)
      ((ws.document c.dom).foremost.map (ws.document c.dom).top) := by
  have hd := h.document c.dom
  obtain ⟨read, template, hgrows, hread, helement, -, hfinal⟩ := h.exists_wrapWith hc hcontent htemplate
    fun d template S hd hS hsplit hns => hd.wrapInside hS hsplit hns template
  refine hfinal _ ?_
  have hgrown := hd.rearranges_of_grows hgrows hread.toWellFormed
  rw [← hgrown.trees_eq]
  exact hgrown.trans (hread.rearranges_wrapInside helement fun n hn =>
    ⟨hgrows.toExtends.isAllocated (hc.2 n hn), hgrown.visible n (hvisible n hn)⟩) hgrows.fresh_le

theorem Sound.visible_wrapAll (hfirst : ∀ n ∈ c.nodes.head?, ((ws.document c.dom).parent? n).isSome)
    (hn : (ws.document c.dom).Visible n) : ((ws.wrapAll c content).document c.dom).Visible n := by
  have hd := h.document c.dom
  rw [wrapAll]
  split
  · exact hn
  obtain ⟨read, template, hgrows, hread, -, hfinal, -⟩ := h.exists_wrapWith hc hcontent htemplate
    fun d template S hd hS hsplit hns => hd.wrapTogether hS hsplit hns template
  have hgrown {m : NodeId} (hm : (ws.document c.dom).Visible m) := hd.visible_of_grows hgrows hm
  refine hfinal n (hread.visible_wrapTogether (fun m hm => hgrows.toExtends.isAllocated (hc.2 m hm))
    (fun m hm => ?_) (hgrown hn))
  have hmem := List.mem_of_mem_head? hm
  rw [hgrows.parent?_of_lt (lt_fresh (hc.2 m hmem))]
  exact ⟨hfirst m hm, hgrown (hvisible m hmem)⟩

end Wrapped

/-- Nothing that `*` found is lost when nodes are wrapped. Inside the nodes the order stays; around
them it stays in each tree, and the trees of wrapped roots come behind the others. -/
theorem star_wrapped (h : ws.Sound) (hc : ws.Holds c.toSelection)
    (hvisible : ∀ t ∈ c.nodes, (ws.document c.dom).Visible t)
    (hcontent : ws.HoldsContent c.dom content) (htemplate : ws.HasTemplate c.dom content) :
    let d := ws.document c.dom
    let trees := (d.regrouped c.nodes).map d.top
    ∃ before, ws.select c.dom "*" = .ok before ∧
      (∃ after, (ws.wrapInner c content).select c.dom "*" = .ok after ∧
        before.nodes.Sublist after.nodes) ∧
      ((∀ n ∈ c.nodes, (d.parent? n).isSome) →
        ∃ after, (ws.wrap c content).select c.dom "*" = .ok after ∧ before.nodes ⊆ after.nodes ∧
          ∀ x ∈ before.nodes, ∀ y ∈ before.nodes, [x, y].Sublist after.nodes ↔
            d.top x = d.top y ∧ [x, y].Sublist before.nodes ∨
              trees.idxOf (d.top x) < trees.idxOf (d.top y)) ∧
      ((∀ n ∈ c.nodes.head?, (d.parent? n).isSome) →
        ∃ after, (ws.wrapAll c content).select c.dom "*" = .ok after ∧ before.nodes ⊆ after.nodes) := by
  intro d trees
  obtain ⟨before, hbefore, hfound⟩ := h.select_star c.dom
  have hd := (h.document c.dom).toWellFormed
  have hold (x : NodeId) (hx : x ∈ ws.found c.dom) : x < d.fresh :=
    lt_fresh (isAllocated_of_isElement (h.mem_found.1 hx).2)
  have hwrap : ws.Evolves (fun _ _ => False) (ws.wrap c content) := h.evolves_wrap hc hcontent
  have hinner : ws.Evolves (fun _ _ => False) (ws.wrapInner c content) := h.evolves_wrapInner hc hcontent
  have hall : ws.Evolves (fun _ _ => False) (ws.wrapAll c content) := h.evolves_wrapAll hc hcontent
  refine ⟨before, hbefore, ?_, fun hparents => ?_, fun hfirst => ?_⟩ <;> rw [hfound]
  · obtain ⟨after, hafter, hfound'⟩ := hinner.sound.select_star c.dom
    have horder := h.rearranges_wrapInner hc hcontent htemplate hvisible
    refine ⟨after, hafter, ?_⟩
    rw [hfound']
    exact horder.settled.select_sublist hd (hinner.sound.document c.dom).toWellFormed
      (fun x hx => ⟨hold x hx, h.mem_found_of_evolves hinner horder.visible hx⟩) horder.trees_eq
  · obtain ⟨after, hafter, hfound'⟩ := hwrap.sound.select_star c.dom
    have horder := h.rearranges_wrap hc hcontent htemplate hvisible hparents
    have hkept (x : NodeId) (hx : x ∈ ws.found c.dom) := h.mem_found_of_evolves hwrap horder.visible hx
    refine ⟨after, hafter, ?_⟩
    rw [hfound']
    refine ⟨hkept, fun x hx y hy => ?_⟩
    have hiff := horder.settled.sublist_select_iff hd (hwrap.sound.document c.dom).toWellFormed
      ⟨hold x hx, hx⟩ ⟨hold y hy, hy⟩ (hkept x hx) (hkept y hy)
    rwa [horder.trees_eq] at hiff
  · obtain ⟨after, hafter, hfound'⟩ := hall.sound.select_star c.dom
    refine ⟨after, hafter, ?_⟩
    rw [hfound']
    exact fun x hx => h.mem_found_of_evolves hall
      (fun m => h.visible_wrapAll hc hcontent htemplate hvisible hfirst) hx

def threeRoots : List Operation :=
  [.change 0 (.create .fragment .html), .change 0 (.create (.element { tag := "i" }) .html),
    .change 0 (.create .fragment .html), .change 0 (.create (.element { tag := "u" }) .html),
    .change 0 (.create (.element { tag := "p" }) .html), .change 0 (.move (.lastIn 0) 1),
    .change 0 (.move (.lastIn 2) 3), .change 0 (.register [1, 3, 4])]

/-- The tree of the first root comes behind the second once the root is wrapped. -/
theorem star_wrapped_threeRoots :
    let ws := ({} : Workspace).run threeRoots
    let c : Collection := { dom := 0, nodes := [1] }
    (ws.document 0).foremost = [1, 3, 4] ∧ (ws.document 0).regrouped [1] = [3, 4, 1] ∧
      ∃ before, ws.select 0 "*" = .ok before ∧
        (∃ after, (ws.wrapInner c (.markup "<b></b>")).select 0 "*" = .ok after ∧
          before.nodes.Sublist after.nodes) ∧
        (∃ after, (ws.wrap c (.markup "<b></b>")).select 0 "*" = .ok after ∧
          before.nodes ⊆ after.nodes) ∧
        ∃ after, (ws.wrapAll c (.markup "<b></b>")).select 0 "*" = .ok after ∧
          before.nodes ⊆ after.nodes := by
  intro ws c
  have hws : ws.Sound := sound_empty.run (by decide +kernel)
  have hc : ws.Holds c.toSelection := by decide +kernel
  have hcontent : ws.HoldsContent c.dom (.markup "<b></b>") := trivial
  obtain ⟨before, hbefore, hinner, hwrap, hall⟩ :=
    star_wrapped hws hc (by decide +kernel) hcontent (by decide +kernel)
  obtain ⟨after, hafter, hkept, -⟩ := hwrap (by decide +kernel)
  exact ⟨by decide +kernel, by decide +kernel, before, hbefore, hinner, ⟨after, hafter, hkept⟩,
    hall (by decide +kernel)⟩

/-- Wrapped with `<b></b>`, the first root is found behind the second, and the root without a parent is
not found any more. -/
theorem not_star_wrapped :
    let ws := ({} : Workspace).run threeRoots
    let c : Collection := { dom := 0, nodes := [1, 4] }
    ws.Sound ∧ ws.Holds c.toSelection ∧ (∀ t ∈ c.nodes, (ws.document 0).Visible t) ∧
      ws.HasTemplate 0 (.markup "<b></b>") ∧
      ∃ before after, ws.select 0 "*" = .ok before ∧
        (ws.wrap c (.markup "<b></b>")).select 0 "*" = .ok after ∧
        [1, 3].Sublist before.nodes ∧ [3, 1].Sublist after.nodes ∧ ¬ [1, 3].Sublist after.nodes ∧
        4 ∈ before.nodes ∧ 4 ∉ after.nodes := by
  intro ws c
  have hws : ws.Sound := sound_empty.run (by decide +kernel)
  have hc : ws.Holds c.toSelection := by decide +kernel
  have hcontent : ws.HoldsContent c.dom (.markup "<b></b>") := trivial
  have hafter : (ws.wrap c (.markup "<b></b>")).Sound :=
    (hws.evolves_wrap (E := fun _ _ => False) hc hcontent).sound
  refine ⟨hws, hc, by decide +kernel, by decide +kernel, ?_⟩
  obtain ⟨before, hbefore, hfound⟩ := hws.select_star 0
  obtain ⟨after, hselect, hfound'⟩ := hafter.select_star 0
  refine ⟨before, after, hbefore, hselect, ?_⟩
  rw [hfound, hfound']
  have hold (n : NodeId) :
      n ∈ ws.found 0 ↔ (ws.document 0).Visible n ∧ (ws.document 0).isElement n := hws.mem_found
  have hnew (n : NodeId) : n ∈ (ws.wrap c (.markup "<b></b>")).found 0 ↔ _ := hafter.mem_found
  have h1 := (hold 1).2 (by decide +kernel)
  have h3 := (hold 3).2 (by decide +kernel)
  have h1' := (hnew 1).2 (by decide +kernel)
  have h3' := (hnew 3).2 (by decide +kernel)
  have hd' := (hafter.document 0).toWellFormed
  have hbehind : ((ws.wrap c (.markup "<b></b>")).document 0).ListedBefore
      ((ws.wrap c (.markup "<b></b>")).document 0).liveRoots 3 1 := .inr (by decide +kernel)
  refine ⟨((hws.document 0).toWellFormed.sublist_select_iff h1 h3).2 (.inr (by decide +kernel)),
    (hd'.sublist_select_iff h3' h1').2 hbehind, fun hfirst => ?_, (hold 4).2 (by decide +kernel),
    fun hmem => ?_⟩
  · exact hd'.listedBefore_asymm hbehind ((hd'.sublist_select_iff h1' h3').1 hfirst)
  · exact absurd ((hnew 4).1 hmem) (by decide +kernel)

end Workspace
end DomQuery
