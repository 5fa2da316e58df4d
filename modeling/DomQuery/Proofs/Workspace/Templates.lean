import DomQuery.Proofs.Document.Templates
import DomQuery.Proofs.Workspace.Evolution

/-!
Wrapping with markup. The first element that is read is the template; the copies of it stay, and all that
was read is freed with the fragment that it was read into.
-/
namespace DomQuery
namespace Document
variable {d d' d'' read : Document} {S : NodeId → Prop} {n m t w first : NodeId} {ns nodes : List NodeId}
  {wrapper : NodeId → NodeId}

/-! What was read is freed, and the wrappers stay. -/

section Freed
variable (hgrows : d.Grows read) (hread : read.WellFormed) (ht : read.isAllocated t)
  (hsame : d'.SameBut (fun n => d.fresh ≤ n ∧ n < read.fresh) d'')
include hgrows hsame

theorem Retains.freed (hd : read.Retains d') : d.Retains d'' where
  wellFormed := hsame.wellFormed
  data? m hm := by
    rw [hsame.data? m (not_read_of_lt hm), hd.data? m (Nat.lt_of_lt_of_le hm hgrows.fresh_le),
      hgrows.toExtends.data? m hm]
  fresh_le := hsame.fresh.symm ▸ hgrows.fresh_le.trans hd.fresh_le

omit hgrows in
include hread ht in
theorem Wraps.freed (hd : d'.WellFormed) (hw : read.Wraps t d' w ns) : read.Wraps t d'' w ns :=
  hw.of_same hread ht hd hsame.wellFormed fun m hm _ =>
    ⟨hsame.data? m (not_read_of_le hm), hsame.children m (not_read_of_le hm)⟩

include hread ht

theorem WrappedTogether.freed (hfirst : first < d.fresh)
    (hd : read.WrappedTogether read t d' first ns w) : d.WrappedTogether read t d'' first ns w := by
  have hlt {m : NodeId} (hm : m < d.fresh) : m < read.fresh := Nat.lt_of_lt_of_le hm hgrows.fresh_le
  refine ⟨hd.toRetains.freed hgrows hsame, hd.wraps.freed hread ht hsame hd.wellFormed, ?_, fun q hq => ?_,
    fun m hm hmem => ?_⟩
  · rw [hsame.parent? w (not_read_of_le (hd.wraps.le_of_liesIn w (.inl rfl))), hd.parent?_wrapper,
      hgrows.parent?_of_lt hfirst]
  · rw [hsame.children q (not_read_of_lt hq), hd.children q (hlt hq), hgrows.children_of_lt hq]
  · rw [hsame.parent? m (not_read_of_lt hm), hd.parent? m (hlt hm) hmem, hgrows.parent?_of_lt hm]

theorem WrappedEach.freed (hns : ∀ n ∈ ns, n < d.fresh) (hd : read.WrappedEach read t d' ns wrapper) :
    d.WrappedEach read t d'' ns wrapper := by
  have hlt {m : NodeId} (hm : m < d.fresh) : m < read.fresh := Nat.lt_of_lt_of_le hm hgrows.fresh_le
  refine ⟨hd.toRetains.freed hgrows hsame, fun n hn => (hd.wraps n hn).freed hread ht hsame hd.wellFormed,
    hd.distinct, fun n hn => ?_, fun q hq => ?_, fun m hm hmem => ?_⟩
  · rw [hsame.parent? _ (not_read_of_le ((hd.wraps n hn).le_of_liesIn _ (.inl rfl))),
      hd.parent?_wrapper n hn, hgrows.parent?_of_lt (hns n hn)]
  · rw [hsame.children q (not_read_of_lt hq), hd.children q (hlt hq), hgrows.children_of_lt hq]
  · rw [hsame.parent? m (not_read_of_lt hm), hd.parent? m (hlt hm) hmem, hgrows.parent?_of_lt hm]

theorem WrappedInside.freed (hns : ∀ n ∈ ns, n < d.fresh)
    (hd : read.WrappedInside read t d' ns wrapper) : d.WrappedInside read t d'' ns wrapper := by
  have hlt {m : NodeId} (hm : m < d.fresh) : m < read.fresh := Nat.lt_of_lt_of_le hm hgrows.fresh_le
  have hleaf {m : NodeId} (hm : m < d.fresh) : read.isLeaf m = d.isLeaf m :=
    isLeaf_congr (hgrows.toExtends.data? m hm)
  refine ⟨hd.toRetains.freed hgrows hsame, fun n hn hnonleaf => ?_, fun q hq => ?_, fun m hm hfree => ?_⟩
  · rw [← hgrows.children_of_lt (hns n hn)]
    exact (hd.wraps n hn (by rwa [hleaf (hns n hn)])).freed hread ht hsame hd.wellFormed
  · rw [hsame.children q (not_read_of_lt hq), hd.children q (hlt hq), hleaf hq, hgrows.children_of_lt hq]
  · rw [hsame.parent? m (not_read_of_lt hm), hd.parent? m (hlt hm) (by rwa [hgrows.parent?_of_lt hm]),
      hgrows.parent?_of_lt hm]

end Freed
end Document

namespace Workspace
open Document
variable {ws : Workspace} {c : Collection} {text : String} {t : NodeId}

/-- Wrapping with markup wraps with the first element that is read, and frees what was read. -/
theorem document_wrapWith_markup (hdom : c.dom < ws.documents.size) (wrap : Document → NodeId → Document)
    (ht : ((ws.document c.dom).parse text).2.find? ((ws.document c.dom).parse text).1.isElement = some t) :
    (ws.wrapWith c (.markup text) wrap).document c.dom =
      (wrap ((ws.document c.dom).parse text).1 t).discardScratch
        (((ws.document c.dom).parse text).1.scratch? ((ws.document c.dom).parse text).2) := by
  obtain ⟨hsame, hdocument, hnodes⟩ := nodesOf_markup hdom text
  rw [wrapWith, document_update_self (hsame.size_eq.symm ▸ hdom)]
  dsimp only
  rw [hdocument, hnodes, ht]
  rfl

theorem wrapWith_markup_frees (h : (ws.document c.dom).WellFormed) (hdom : c.dom < ws.documents.size)
    (wrap : Document → NodeId → Document)
    (ht : ((ws.document c.dom).parse text).2.find? ((ws.document c.dom).parse text).1.isElement = some t)
    (hmoves : ((ws.document c.dom).parse text).1.Moves
      (fun m => (ws.document c.dom).fresh ≤ m ∧ m < ((ws.document c.dom).parse text).1.fresh)
      (fun m => ¬ ((ws.document c.dom).fresh ≤ m ∧ m < ((ws.document c.dom).parse text).1.fresh))
      (wrap ((ws.document c.dom).parse text).1 t)) :
    (wrap ((ws.document c.dom).parse text).1 t).SameBut
        (fun m => (ws.document c.dom).fresh ≤ m ∧ m < ((ws.document c.dom).parse text).1.fresh)
        ((ws.wrapWith c (.markup text) wrap).document c.dom) ∧
      (ws.document c.dom).Forgets ((ws.document c.dom).parse text).1
        ((ws.wrapWith c (.markup text) wrap).document c.dom) := by
  obtain ⟨hadds, hscratch⟩ := h.parse text
  rw [document_wrapWith_markup hdom wrap ht]
  exact hadds.sameBut_discardScratch hscratch (List.ne_nil_of_mem (List.mem_of_find?_eq_some ht)) hmoves

/-- Each wrapper is a fresh copy of the first element that is read, holds what it is to hold at the end of its
innermost element and stands exactly where that stood: around each node, around all nodes together, or as all
that is in a node. Apart from that each node keeps its parent, its data and the order of its children, and
nothing of what was read is left. -/
theorem wraps_exactly (h : (ws.document c.dom).WellFormed) (hc : ws.Holds c.toSelection)
    (hnodup : c.nodes.Nodup)
    (ht : ((ws.document c.dom).parse text).2.find? ((ws.document c.dom).parse text).1.isElement = some t) :
    let d := ws.document c.dom
    let read := (d.parse text).1
    (∀ r ∈ (d.parse text).2, read.parent? r = some d.fresh) ∧
      (∃ wrapper, d.WrappedEach read t ((ws.wrap c (.markup text)).document c.dom) c.nodes wrapper ∧
        d.Forgets read ((ws.wrap c (.markup text)).document c.dom)) ∧
      (∃ wrapper, d.WrappedInside read t ((ws.wrapInner c (.markup text)).document c.dom) c.nodes wrapper ∧
        d.Forgets read ((ws.wrapInner c (.markup text)).document c.dom)) ∧
      ∀ first ∈ c.nodes.head?, (∀ n ∈ c.nodes, ¬ d.isWithin first n) →
        ∃ w, d.WrappedTogether read t ((ws.wrapAll c (.markup text)).document c.dom) first c.nodes w ∧
          d.Forgets read ((ws.wrapAll c (.markup text)).document c.dom) := by
  intro d read
  obtain ⟨hadds, hscratch⟩ := h.parse text
  have hread := hadds.wellFormed
  have hgrows := hadds.grows
  have htemplate : read.isElement t := List.find?_some ht
  have hmem : t ∈ (d.parse text).2 := List.mem_of_find?_eq_some ht
  let S (m : NodeId) : Prop := d.fresh ≤ m ∧ m < read.fresh
  have hS (m : NodeId) (hm : S m) : m < read.fresh := hm.2
  have hlt (n : NodeId) (hn : n ∈ c.nodes) : n < d.fresh := lt_fresh (hc.2 n hn)
  have hns (n : NodeId) (hn : n ∈ c.nodes) : read.isAllocated n ∧ ¬ S n :=
    ⟨hgrows.toExtends.isAllocated (hc.2 n hn), not_read_of_lt (hlt n hn)⟩
  have hapart (n : NodeId) (hn : n ∈ c.nodes) : read.isAllocated n ∧ ¬ read.LiesIn n t := by
    refine ⟨(hns n hn).1, fun hlies => (hns n hn).2 ((hadds.split.iff_of_liesIn hlies).2 ?_)⟩
    exact ⟨(hadds.of_mem t hmem).1, lt_fresh (hadds.of_mem t hmem).2⟩
  have hallocated := isAllocated_of_isElement htemplate
  refine ⟨hscratch, ?_, ?_, fun first hfirst hout => ?_⟩
  · obtain ⟨wrapper, hwrapped⟩ := hread.wrapEach_each htemplate hnodup hapart
    obtain ⟨hsame, hforgets⟩ := wrapWith_markup_frees h hc.1 (·.wrapEach · c.nodes) ht
      (hread.wrapEach hS hadds.split hns t)
    exact ⟨wrapper, hwrapped.freed hgrows hread hallocated hsame hlt, hforgets⟩
  · obtain ⟨wrapper, hwrapped⟩ := hread.wrapInside_inside htemplate hnodup hapart
    obtain ⟨hsame, hforgets⟩ := wrapWith_markup_frees h hc.1 (·.wrapInside · c.nodes) ht
      (hread.wrapInside hS hadds.split hns t)
    exact ⟨wrapper, hwrapped.freed hgrows hread hallocated hsame hlt, hforgets⟩
  · obtain ⟨rest, hnodes⟩ := List.head?_eq_some_iff.1 hfirst
    have hmem : first ∈ c.nodes := hnodes ▸ List.mem_cons_self
    have hwrapped := hread.wrapAt_together htemplate hnodup hmem fun n hn =>
      ⟨(hns n hn).1, (hgrows.isWithin_iff (hlt first hmem)).not.2 (hout n hn)⟩
    obtain ⟨hsame, hforgets⟩ := wrapWith_markup_frees h hc.1 (·.wrapTogether · c.nodes) ht
      (hread.wrapTogether hS hadds.split hns t)
    have hall : read.wrapTogether t c.nodes =
        (read.copy t true).1.wrapAt (read.copy t true).2 first c.nodes := by
      rw [hnodes]
      rfl
    rw [wrapAll, if_neg (by simp [hnodes])]
    rw [← hall] at hwrapped
    exact ⟨_, hwrapped.freed hgrows hread hallocated hsame (hlt first hmem), hforgets⟩

/-- A list item, the text in it, and a comment that has no parent. The template is two levels deep, with a
text before each element. The text before the template is read and freed with it. -/
theorem wraps_exactly_item :
    let ws : Workspace := { documents := #[{ slots := #[
      some { kind := .element { tag := "ul" }, children := [1, 2] },
      some { kind := .element { tag := "li" }, parent := some 0, children := [4] },
      some { kind := .text "two", parent := some 0 },
      some { kind := .comment "mark" },
      some { kind := .text "one", parent := some 1 }], roots := [0] }] }
    let c : Collection := { dom := 0, nodes := [1, 4, 3] }
    let text := "x<b>y<i>z<u></u></i></b>"
    let d := ws.document 0
    let read := (d.parse text).1
    d.WellFormed ∧ (d.parse text).2.find? read.isElement = some 10 ∧
      (let wrapped := (ws.wrap c (.markup text)).document 0
        ∃ wrapper, d.WrappedEach read 10 wrapped [1, 4, 3] wrapper ∧
          wrapped.children 0 = [wrapper 1, 2] ∧ wrapped.parent? (wrapper 3) = none ∧
          ∃ i u, ([1].foldl .detach wrapped).FirstElement (wrapper 1) i ∧
            ([1].foldl .detach wrapped).FirstElement i u ∧ [1] <:+ wrapped.children u) ∧
      (∃ wrapper, d.WrappedInside read 10 ((ws.wrapInner c (.markup text)).document 0) [1, 4, 3] wrapper ∧
        ((ws.wrapInner c (.markup text)).document 0).children 1 = [wrapper 1]) ∧
      ∃ w, d.WrappedTogether read 10 ((ws.wrapAll c (.markup text)).document 0) 1 [1, 4, 3] w ∧
        ((ws.wrapAll c (.markup text)).document 0).children 0 = [w, 2] := by
  intro ws c text d read
  have h : d.WellFormed := by decide +kernel
  have ht : (d.parse text).2.find? read.isElement = some 10 := by decide +kernel
  have hold : d.children 0 = [1, 2] := by decide +kernel
  obtain ⟨-, ⟨each, heach, -⟩, ⟨inside, hinside, -⟩, htogether⟩ :=
    @wraps_exactly ws c text 10 h (by decide +kernel) (by decide +kernel) ht
  obtain ⟨w, hw, -⟩ := htogether 1 rfl (by decide +kernel)
  refine ⟨h, ht, ⟨each, heach, ?_, ?_, 17, 19, ?_⟩, ⟨inside, hinside, ?_⟩, w, hw, ?_⟩
  · rw [heach.children 0 (by decide +kernel)]
    exact congrArg _ hold
  · exact (heach.parent?_wrapper 3 (by decide)).trans (by decide +kernel)
  · have hplace := heach.children 0 (by decide +kernel)
    obtain ⟨inner, hinner, hsuffix⟩ := (heach.wraps 1 List.mem_cons_self).suffix
    generalize hwrapped : (ws.wrap c (.markup text)).document c.dom = wrapped at hplace hinner hsuffix ⊢
    have hlist : wrapped.children 0 = [15, 2] := hwrapped ▸ by decide +kernel
    have hfirst : each 1 = 15 := by
      rw [hold, hlist] at hplace
      exact (List.cons.inj hplace).1.symm
    rw [hfirst] at hinner ⊢
    have hi : ([1].foldl .detach wrapped).FirstElement 15 17 :=
      hwrapped ▸ ⟨[16], [], by decide +kernel, by decide +kernel, by decide +kernel⟩
    have hu : ([1].foldl .detach wrapped).FirstElement 17 19 :=
      hwrapped ▸ ⟨[18], [], by decide +kernel, by decide +kernel, by decide +kernel⟩
    have hlast : ∀ m ∈ ([1].foldl Document.detach wrapped).children 19,
        ¬ ([1].foldl Document.detach wrapped).isElement m := hwrapped ▸ by decide +kernel
    have heq : inner = 19 := hinner.unique ⟨.tail (.single hi) hu, hlast⟩
    exact ⟨hi, hu, heq ▸ hsuffix⟩
  · exact (hinside.children 1 (by decide +kernel)).trans (if_pos ⟨by decide, by decide +kernel⟩)
  · rw [hw.children 0 (by decide +kernel)]
    exact congrArg _ hold

end Workspace
end DomQuery
