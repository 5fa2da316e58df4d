import DomQuery.Proofs.Collection.Nodes
import DomQuery.Proofs.Document.Soundness

/-!
Workspaces. An operation concerns one document; it leaves that one sound with all its nodes, and the
others as they are.
-/
namespace DomQuery
variable {ws ws' : Workspace} {dom : DomId} {E : DomId → NodeId → Prop} {c : Collection}
  {ns : List NodeId}

namespace Workspace

/-- All documents are sound, and the current one is among them. -/
structure Sound (ws : Workspace) : Prop where
  document : ∀ dom, (ws.document dom).Sound
  current_lt : ws.current < ws.documents.size

/-- The workspace has all documents that it had, with their nodes; what nodes are has changed for those
of `E` only. -/
structure Evolves (E : DomId → NodeId → Prop) (ws ws' : Workspace) : Prop where
  size_le : ws.documents.size ≤ ws'.documents.size
  document : ∀ dom, (ws.document dom).Evolves (E dom) (ws'.document dom)
  current_lt : ws'.current < ws'.documents.size

theorem Evolves.sound (h : ws.Evolves E ws') : ws'.Sound :=
  ⟨fun dom => (h.document dom).sound, h.current_lt⟩

theorem Sound.evolves_self (h : ws.Sound) : ws.Evolves E ws :=
  ⟨Nat.le_refl _, fun dom => (h.document dom).evolves_self, h.current_lt⟩

theorem Evolves.trans {ws'' : Workspace} (h : ws.Evolves E ws') (h' : ws'.Evolves E ws'') :
    ws.Evolves E ws'' :=
  ⟨Nat.le_trans h.size_le h'.size_le, fun dom => (h.document dom).trans (h'.document dom),
    h'.current_lt⟩

/-- Only one document is another one. -/
structure DiffersAt (dom : DomId) (ws ws' : Workspace) : Prop where
  size_eq : ws'.documents.size = ws.documents.size
  current_eq : ws'.current = ws.current
  document_of_ne : ∀ other ≠ dom, ws'.document other = ws.document other

theorem DiffersAt.refl (dom : DomId) (ws : Workspace) : ws.DiffersAt dom ws :=
  ⟨rfl, rfl, fun _ _ => rfl⟩

theorem DiffersAt.trans {ws'' : Workspace} (h : ws.DiffersAt dom ws') (h' : ws'.DiffersAt dom ws'') :
    ws.DiffersAt dom ws'' where
  size_eq := h'.size_eq.trans h.size_eq
  current_eq := h'.current_eq.trans h.current_eq
  document_of_ne other hne := (h'.document_of_ne other hne).trans (h.document_of_ne other hne)

theorem Sound.evolves_of_differsAt (h : ws.Sound) (hsame : ws.DiffersAt dom ws')
    (hd : (ws.document dom).Evolves (E dom) (ws'.document dom)) : ws.Evolves E ws' where
  size_le := hsame.size_eq.ge
  document other := by
    by_cases heq : other = dom
    · rw [heq]
      exact hd
    · rw [hsame.document_of_ne other heq]
      exact (h.document other).evolves_self
  current_lt := by
    rw [hsame.size_eq, hsame.current_eq]
    exact h.current_lt

theorem document_update (hdom : dom < ws.documents.size) (f : Document → Document) (other : DomId) :
    (ws.update dom f).document other =
      if other = dom then f (ws.document dom) else ws.document other := by
  simp only [document, update, Array.getD_eq_getD_getElem?, Array.getElem?_modify]
  by_cases heq : other = dom
  · subst heq
    rw [if_pos rfl, if_pos rfl, Array.getElem?_eq_getElem hdom]
    rfl
  · rw [if_neg (Ne.symm heq), if_neg heq]

theorem differsAt_update (hdom : dom < ws.documents.size) (f : Document → Document) :
    ws.DiffersAt dom (ws.update dom f) where
  size_eq := Array.size_modify
  current_eq := rfl
  document_of_ne other hne := by rw [document_update hdom, if_neg hne]

theorem document_update_self (hdom : dom < ws.documents.size) (f : Document → Document) :
    (ws.update dom f).document dom = f (ws.document dom) := by
  rw [document_update hdom, if_pos rfl]

theorem Sound.evolves_update_of_differsAt (h : ws.Sound) (hdom : dom < ws.documents.size)
    (hsame : ws.DiffersAt dom ws') {f : Document → Document}
    (hf : (ws.document dom).Evolves (E dom) (f (ws'.document dom))) :
    ws.Evolves E (ws'.update dom f) := by
  have hdom' : dom < ws'.documents.size := hsame.size_eq.symm ▸ hdom
  refine h.evolves_of_differsAt (hsame.trans (differsAt_update hdom' f)) ?_
  rw [document_update_self hdom']
  exact hf

theorem Sound.evolves_update (h : ws.Sound) (hdom : dom < ws.documents.size)
    {f : Document → Document}
    (hf : (ws.document dom).Evolves (E dom) (f (ws.document dom))) :
    ws.Evolves E (ws.update dom f) :=
  h.evolves_update_of_differsAt hdom (.refl dom ws) hf

theorem document_push (ws : Workspace) (dom : DomId) :
    ({ ws with documents := ws.documents.push {} } : Workspace).document dom = ws.document dom := by
  simp only [document, Array.getD_eq_getD_getElem?, Array.getElem?_push]
  split
  · rename_i heq
    rw [heq, Array.getElem?_eq_none (Nat.le_refl _)]
    rfl
  · rfl

/-! What a caller holds. -/

/-- The nodes of a selection are nodes of its document. -/
def Holds (ws : Workspace) (s : Selection) : Prop :=
  s.dom < ws.documents.size ∧ ∀ n ∈ s.nodes, (ws.document s.dom).isAllocated n

/-- A collection is held with all that it comes from. -/
def HoldsChain (ws : Workspace) (c : Collection) : Prop :=
  ws.Holds c.toSelection ∧ ∀ s ∈ c.history, ws.Holds s

def HoldsTarget (ws : Workspace) (dom : DomId) : Target → Prop
  | .selector _ => True
  | .nodes nodes => ws.Holds { dom, nodes }
  | .collection c => ws.HoldsChain c

def HoldsContent (ws : Workspace) (dom : DomId) : Content → Prop
  | .markup _ => True
  | .nodes nodes => ws.Holds { dom, nodes }
  | .collection c => ws.HoldsChain c

instance (ws : Workspace) (s : Selection) : Decidable (ws.Holds s) :=
  inferInstanceAs (Decidable (_ ∧ ∀ n ∈ s.nodes, _))

instance (ws : Workspace) (c : Collection) : Decidable (ws.HoldsChain c) :=
  inferInstanceAs (Decidable (_ ∧ ∀ s ∈ c.history, _))

instance (ws : Workspace) (dom : DomId) : (target : Target) → Decidable (ws.HoldsTarget dom target)
  | .selector _ => inferInstanceAs (Decidable True)
  | .nodes nodes => inferInstanceAs (Decidable (ws.Holds { dom, nodes }))
  | .collection c => inferInstanceAs (Decidable (ws.HoldsChain c))

instance (ws : Workspace) (dom : DomId) :
    (content : Content) → Decidable (ws.HoldsContent dom content)
  | .markup _ => inferInstanceAs (Decidable True)
  | .nodes nodes => inferInstanceAs (Decidable (ws.Holds { dom, nodes }))
  | .collection c => inferInstanceAs (Decidable (ws.HoldsChain c))

theorem Holds.of_evolves {s : Selection} (hs : ws.Holds s) (h : ws.Evolves E ws') : ws'.Holds s :=
  ⟨Nat.lt_of_lt_of_le hs.1 h.size_le, fun n hn => (h.document s.dom).isAllocated n (hs.2 n hn)⟩

theorem HoldsChain.of_evolves (hc : ws.HoldsChain c) (h : ws.Evolves E ws') : ws'.HoldsChain c :=
  ⟨hc.1.of_evolves h, fun s hs => (hc.2 s hs).of_evolves h⟩

theorem holdsChain_ofNodes (hns : ws.Holds { dom, nodes := ns }) :
    ws.HoldsChain (.ofNodes dom ns) :=
  ⟨⟨hns.1, fun n hn => hns.2 n (mem_distinct.1 hn)⟩, nofun⟩

theorem HoldsChain.deriveIn (hc : ws.HoldsChain c) (hns : ws.Holds { dom, nodes := ns }) :
    ws.HoldsChain (c.deriveIn dom ns) :=
  ⟨⟨hns.1, fun n hn => hns.2 n (mem_distinct.1 hn)⟩, List.forall_mem_cons.2 hc⟩

theorem HoldsChain.back (hc : ws.HoldsChain c) : ws.HoldsChain c.back := by
  rw [Collection.back]
  split
  · exact ⟨⟨hc.1.1, nofun⟩, nofun⟩
  · rename_i s history heq
    rw [HoldsChain, heq] at hc
    exact List.forall_mem_cons.1 hc.2

theorem HoldsChain.derived {c' : Collection} {step : Derivation} (hc : ws.HoldsChain c)
    (h : ws.Sound) (hrun : step.run (ws.document c.dom) c = .ok c') : ws.HoldsChain c' := by
  rcases (h.document c.dom).toWellFormed.derivedFrom hc.1.2 hrun with rfl | ⟨ns, rfl, hns⟩
  · exact hc.back
  · exact hc.deriveIn ⟨hc.1.1, hns⟩

theorem holds_of_elements (h : dom < ws.documents.size)
    (hns : ∀ n ∈ ns, (ws.document dom).isElement n) : ws.Holds { dom, nodes := ns } :=
  ⟨h, fun n hn => Document.isAllocated_of_isElement (hns n hn)⟩

theorem holdsChain_select {text : String} (hdom : dom < ws.documents.size)
    (hrun : ws.select dom text = .ok c) : ws.HoldsChain c ∧ c.dom = dom := by
  obtain ⟨selector, -, hrun⟩ := bind_eq_ok.1 hrun
  obtain rfl := Except.ok.inj hrun
  exact ⟨holdsChain_ofNodes (holds_of_elements hdom fun n hn => Document.isElement_of_mem_query hn), rfl⟩

theorem holds_resolve {target : Target} {nodes : List NodeId} {other : DomId}
    (hdom : dom < ws.documents.size) (htarget : ws.HoldsTarget dom target)
    (hrun : ws.resolve dom target = .ok (other, nodes)) : ws.Holds { dom := other, nodes } := by
  cases target with
  | selector text =>
    obtain ⟨c, hselect, heq⟩ := map_eq_ok.1 hrun
    obtain ⟨rfl, rfl⟩ := Prod.mk.inj heq
    obtain ⟨hc, rfl⟩ := holdsChain_select hdom hselect
    exact hc.1
  | nodes nodes =>
    obtain ⟨rfl, rfl⟩ := Prod.mk.inj (Except.ok.inj hrun)
    exact htarget
  | collection c =>
    obtain ⟨rfl, rfl⟩ := Prod.mk.inj (Except.ok.inj hrun)
    exact htarget.1

theorem holdsChain_add {target : Target} {c' : Collection} (hc : ws.HoldsChain c)
    (htarget : ws.HoldsTarget c.dom target) (hrun : ws.add c target = .ok c') :
    ws.HoldsChain c' := by
  obtain ⟨⟨other, nodes⟩, hresolved, hrun⟩ := bind_eq_ok.1 hrun
  have hnodes := holds_resolve hc.1.1 htarget hresolved
  obtain rfl := Except.ok.inj hrun
  refine hc.deriveIn ⟨hc.1.1, fun n hn => ?_⟩
  have hn := mem_distinct.1 (Document.mem_sortByOrder.1 hn)
  cases List.mem_append.1 hn with
  | inl hn => exact hc.1.2 n hn
  | inr hn =>
    split at hn
    · rename_i heq
      exact heq ▸ hnodes.2 n hn
    · cases hn

theorem Sound.evolves_setDocument (h : ws.Sound) (hdom : dom < ws.documents.size) {d : Document}
    (hd : (ws.document dom).Evolves (E dom) d) (hns : ∀ n ∈ ns, d.isAllocated n) :
    ws.Evolves E (ws.setDocument dom d) ∧ (ws.setDocument dom d).Holds { dom, nodes := ns } := by
  have hws : ws.Evolves E (ws.setDocument dom d) := h.evolves_update hdom hd
  refine ⟨hws, Nat.lt_of_lt_of_le hdom hws.size_le, fun n hn => ?_⟩
  rw [setDocument, document_update_self hdom]
  exact hns n hn

/-! Content. -/

theorem exists_markup {content : Content} (h : content.isMarkup = true) :
    ∃ text, content = .markup text := by
  cases content with
  | markup text => exact ⟨text, rfl⟩
  | nodes nodes => cases h
  | collection c => cases h

theorem adds_importAll {d other : Document} (h : d.WellFormed) (hother : other.WellFormed)
    (ns : List NodeId) : d.Adds (importAll d other ns).1 (importAll d other ns).2 := by
  induction ns generalizing d with
  | nil => exact .nil h
  | cons n ns ih =>
    have hfirst := h.adds_importNode hother n
    exact hfirst.append (ih hfirst.wellFormed)

theorem nodesOf_markup (hdom : dom < ws.documents.size) (text : String) :
    ws.DiffersAt dom (ws.nodesOf dom (.markup text)).1 ∧
      (ws.nodesOf dom (.markup text)).1.document dom = ((ws.document dom).parse text).1 ∧
      (ws.nodesOf dom (.markup text)).2 = ((ws.document dom).parse text).2 := by
  rw [Workspace.nodesOf, parseForest]
  generalize (ws.document dom).parse text = read
  exact ⟨differsAt_update hdom _, document_update_self hdom _, rfl⟩

theorem Sound.nodesOf (h : ws.Sound) (hdom : dom < ws.documents.size) {content : Content}
    (hcontent : ws.HoldsContent dom content) (hmarkup : content.isMarkup = false) :
    ws.DiffersAt dom (ws.nodesOf dom content).1 ∧
      (ws.document dom).Evolves (E dom) ((ws.nodesOf dom content).1.document dom) ∧
      ∀ n ∈ (ws.nodesOf dom content).2, ((ws.nodesOf dom content).1.document dom).isAllocated n := by
  cases content with
  | markup text => cases hmarkup
  | nodes nodes => exact ⟨.refl dom ws, (h.document dom).evolves_self, hcontent.2⟩
  | collection c =>
    simp only [Workspace.nodesOf]
    split
    · rename_i heq
      subst heq
      exact ⟨.refl _ ws, (h.document _).evolves_self, hcontent.1.2⟩
    · have hadds := adds_importAll (h.document dom).toWellFormed (h.document c.dom).toWellFormed c.nodes
      refine ⟨differsAt_update hdom _, ?_⟩
      simp only [setDocument, document_update_self hdom]
      exact ⟨(h.document dom).evolves_of_adds hadds, fun n hn => (hadds.of_mem n hn).2⟩

/-! Changes around nodes of a collection. -/

theorem Sound.evolves_insert (h : ws.Sound) (hc : ws.Holds c.toSelection) {content : Content}
    (hcontent : ws.HoldsContent c.dom content) (place : Place) :
    ws.Evolves E (ws.insert c content place) := by
  have hdom := hc.1
  rw [insert]
  cases hmarkup : content.isMarkup with
  | true =>
    obtain ⟨text, rfl⟩ := exists_markup hmarkup
    obtain ⟨hsame, hdocument, hnodes⟩ := nodesOf_markup hdom text
    obtain ⟨hadds, hscratch⟩ := (h.document c.dom).toWellFormed.parse text
    generalize ws.nodesOf c.dom (.markup text) = read at hsame hdocument hnodes ⊢
    refine h.evolves_update_of_differsAt hdom hsame ?_
    rw [hdocument, hnodes]
    exact (h.document c.dom).evolves_distribute_markup hadds hscratch hc.2
  | false =>
    obtain ⟨hsame, hevolves, hnodes⟩ := h.nodesOf (E := E) hdom hcontent hmarkup
    refine h.evolves_update_of_differsAt hdom hsame ?_
    exact hevolves.trans (hevolves.sound.evolves_distribute place hnodes
      fun t ht => hevolves.isAllocated t (hc.2 t ht)).1

theorem Sound.evolves_wrapWith (h : ws.Sound) (hc : ws.Holds c.toSelection) {content : Content}
    (hcontent : ws.HoldsContent c.dom content) {wrap : Document → NodeId → Document}
    (hwrap : ∀ (d : Document) (template : NodeId) (S : NodeId → Prop), d.WellFormed →
      (∀ n, S n → n < d.fresh) → d.Split S → (∀ n ∈ c.nodes, d.isAllocated n ∧ ¬ S n) →
      d.Moves S (¬ S ·) (wrap d template)) :
    ws.Evolves E (ws.wrapWith c content wrap) := by
  have hdom := hc.1
  rw [wrapWith]
  cases hmarkup : content.isMarkup with
  | true =>
    obtain ⟨text, rfl⟩ := exists_markup hmarkup
    obtain ⟨hsame, hdocument, hnodes⟩ := nodesOf_markup hdom text
    obtain ⟨hadds, hscratch⟩ := (h.document c.dom).toWellFormed.parse text
    generalize ws.nodesOf c.dom (.markup text) = read at hsame hdocument hnodes ⊢
    refine h.evolves_update_of_differsAt hdom hsame ?_
    rw [hdocument, hnodes]
    dsimp only
    split
    · exact (h.document c.dom).evolves_wrap_markup (wrap · _) hadds hscratch hc.2
        fun S hS hsplit hns => hwrap _ _ S hadds.wellFormed hS hsplit hns
    · exact (h.document c.dom).evolves_wrap_markup id hadds hscratch hc.2
        fun S _ _ _ => .refl hadds.wellFormed
  | false =>
    obtain ⟨hsame, hevolves, -⟩ := h.nodesOf (E := E) hdom hcontent hmarkup
    refine h.evolves_update_of_differsAt hdom hsame ?_
    dsimp only
    split
    · refine hevolves.trans (hevolves.sound.evolves_of_moves (hwrap _ _ (fun _ => False)
        hevolves.sound.toWellFormed (fun _ => False.elim) (fun _ _ _ => Iff.rfl)
        fun n hn => ⟨hevolves.isAllocated n (hc.2 n hn), id⟩))
    · exact hevolves

section Wrappings
variable (h : ws.Sound) (hc : ws.Holds c.toSelection) {content : Content}
  (hcontent : ws.HoldsContent c.dom content)
include h hc hcontent

theorem Sound.evolves_wrap : ws.Evolves E (ws.wrap c content) :=
  h.evolves_wrapWith hc hcontent fun _ template _ hd hS hsplit hns => hd.wrapEach hS hsplit hns template

theorem Sound.evolves_wrapInner : ws.Evolves E (ws.wrapInner c content) :=
  h.evolves_wrapWith hc hcontent fun _ template _ hd hS hsplit hns => hd.wrapInside hS hsplit hns template

theorem Sound.evolves_wrapAll : ws.Evolves E (ws.wrapAll c content) := by
  rw [wrapAll]
  split
  · exact h.evolves_self
  · exact h.evolves_wrapWith hc hcontent
      fun _ template _ hd hS hsplit hns => hd.wrapTogether hS hsplit hns template

end Wrappings

theorem Sound.evolves_insertAt (h : ws.Sound) (hc : ws.HoldsChain c) {target : Target}
    (htarget : ws.HoldsTarget c.dom target) {place : Place} {c' : Collection}
    (hrun : ws.insertAt c target place = .ok (ws', c')) : ws.Evolves E ws' ∧ ws'.HoldsChain c' := by
  obtain ⟨⟨dom, targets⟩, hresolved, hrun⟩ := bind_eq_ok.1 hrun
  have htargets := holds_resolve hc.1.1 htarget hresolved
  have hdom : dom < ws.documents.size := htargets.1
  obtain ⟨hsame, hevolves, hnodes⟩ := h.nodesOf (E := E) hdom
    (show ws.HoldsContent dom (.collection c) from hc) rfl
  dsimp only at hrun
  generalize ws.nodesOf dom (.collection c) = content at hsame hevolves hnodes hrun
  obtain ⟨hdistributed, hplaced⟩ := hevolves.sound.evolves_distribute (E := E dom) place hnodes
    fun t ht => hevolves.isAllocated t (htargets.2 t ht)
  have hdom' : dom < content.1.documents.size := by rwa [hsame.size_eq]
  obtain ⟨rfl, rfl⟩ := Prod.mk.inj (Except.ok.inj hrun)
  have hws : ws.Evolves E (content.1.setDocument dom
      ((content.1.document dom).distribute place targets content.2).1) :=
    h.evolves_update_of_differsAt hdom hsame (hevolves.trans hdistributed)
  refine ⟨hws, (hc.of_evolves hws).deriveIn ⟨Nat.lt_of_lt_of_le hdom hws.size_le, fun n hn => ?_⟩⟩
  rw [setDocument, document_update_self hdom']
  exact hplaced n hn

end Workspace
end DomQuery
