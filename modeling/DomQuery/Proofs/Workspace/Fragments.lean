import DomQuery.Proofs.Markup.Container
import DomQuery.Proofs.Workspace.Runs

/-!
Runs that put no fragment into another node. A fragment is a node like others to a caller who makes one
or asks for the parent of a top-level node, and nothing keeps it from being moved; as long as none is, all
fragments of all documents stay without a parent.
-/
namespace DomQuery
variable {ws ws' : Workspace} {dom : DomId} {c c' : Collection} {op : Operation}

/-! Changes of one document. -/

namespace Document
variable {d d' : Document} {n m p : NodeId} {ns : List NodeId}

theorem spares_modifyElement (d : Document) (n : NodeId) (f : Element → Element) :
    d.Spares (d.modifyElement n f) := by
  refine spares_modify (fun node => ?_) fun node _ hkind => ?_
  · split <;> rfl
  · split at hkind
    · cases hkind
    · exact hkind

theorem spares_editElements (d : Document) (ns : List NodeId) (f : Element → Element) :
    d.Spares (ns.foldl (fun d n => d.modifyElement n f) d) :=
  .foldl fun d' _ n _ => spares_modifyElement d' n f

theorem spares_setTextContent (d : Document) (n : NodeId) (text : String) :
    d.Spares (d.setTextContent n text) := by
  rw [setTextContent]
  split
  · exact spares_modify (fun _ => rfl) fun _ _ hkind => absurd hkind Bool.false_ne_true
  · exact spares_modify (fun _ => rfl) fun _ _ hkind => absurd hkind Bool.false_ne_true
  · have hbare := spares_clearChildren d n
    dsimp only
    split
    · exact hbare
    · have hcreate := (d.clearChildren n).spares_create
        (show ¬ (Kind.text text).isFragment from Bool.false_ne_true) .html
      exact hbare.trans (hcreate.trans
        (spares_put _ (hcreate.not_isFragment_of_le (Nat.le_refl (d.clearChildren n).fresh))))

theorem spares_move {spot : Spot} (hn : ¬ d.isFragment n) (hmove : d.move spot n = .ok d') :
    d.Spares d' := by
  rw [move] at hmove
  split at hmove
  · cases hmove
  · cases hmove
    exact spares_put spot hn

theorem spares_insertBefore {reference : Option NodeId} (hn : ¬ d.isFragment n)
    (hmove : d.insertBefore p n reference = .ok d') : d.Spares d' := by
  cases reference with
  | none => exact spares_move hn hmove
  | some s =>
    rw [insertBefore] at hmove
    split at hmove
    · exact spares_move hn hmove
    · cases hmove

theorem spares_removeChild (hmove : d.removeChild p n = .ok d') : d.Spares d' := by
  rw [removeChild] at hmove
  split at hmove
  · cases hmove
    exact spares_detach d n
  · cases hmove

theorem spares_replaceChild {old : NodeId} (hn : ¬ d.isFragment n)
    (hmove : d.replaceChild p n old = .ok d') : d.Spares d' := by
  rw [replaceChild] at hmove
  split at hmove
  · cases hmove
  split at hmove
  · cases hmove
    exact .refl d
  split at hmove
  · cases hmove
  · cases hmove
    exact (spares_put _ hn).trans (spares_detach _ old)

theorem FragmentsOnTop.assign (htop : d.FragmentsOnTop) {kind : Kind} (space : Namespace)
    (hkind : kind.isFragment → d.parent? n = none) :
    (d.modify n fun node => { node with kind, ns := space }).FragmentsOnTop := by
  intro m hm
  rw [parent?_modify]
  swap
  · exact fun _ => rfl
  rw [isFragment_modify] at hm
  split at hm
  · rename_i heq
    obtain ⟨node, -, hm⟩ := (Option.any_eq_true _ _).1 hm
    rw [heq]
    exact hkind hm
  · exact htop m hm

end Document

namespace Change
variable {d d' : Document} {ns : List NodeId} {change : Change}

/-- No fragment is moved into a node, and nothing in a node is made a fragment. -/
def SparesFragments (d : Document) : Change → Prop
  | .move _ n => ¬ d.isFragment n
  | .insertBefore _ n _ => ¬ d.isFragment n
  | .replaceChild _ new _ => ¬ d.isFragment new
  | .assign n kind _ => kind.isFragment → d.parent? n = none
  | _ => True

instance (d : Document) : (change : Change) → Decidable (change.SparesFragments d)
  | .move _ n => inferInstanceAs (Decidable (¬ d.isFragment n))
  | .insertBefore _ n _ => inferInstanceAs (Decidable (¬ d.isFragment n))
  | .replaceChild _ new _ => inferInstanceAs (Decidable (¬ d.isFragment new))
  | .assign _ _ _ => inferInstanceAs (Decidable (_ → _))
  | .create _ _ => inferInstanceAs (Decidable True)
  | .parse _ => inferInstanceAs (Decidable True)
  | .removeChild _ _ => inferInstanceAs (Decidable True)
  | .detach _ => inferInstanceAs (Decidable True)
  | .clearChildren _ => inferInstanceAs (Decidable True)
  | .copy _ _ => inferInstanceAs (Decidable True)
  | .setTextContent _ _ => inferInstanceAs (Decidable True)
  | .editElement _ _ => inferInstanceAs (Decidable True)
  | .register _ => inferInstanceAs (Decidable True)
  | .unregister _ => inferInstanceAs (Decidable True)
  | .clearRoots => inferInstanceAs (Decidable True)

theorem spares_elementEdit (d : Document) (n : NodeId) (edit : ElementEdit) : d.Spares (edit.run d n) := by
  cases edit with
  | setAttribute name value => exact d.spares_modifyElement n _
  | removeAttribute name => exact d.spares_modifyElement n _
  | setProperty name value => exact d.spares_modifyElement n _
  | removeProperty name => exact d.spares_modifyElement n _
  | custom edit => exact d.spares_modifyElement n edit

theorem fragmentsOnTop (h : d.WellFormed) (htop : d.FragmentsOnTop) (hchange : change.Admissible d)
    (hspares : change.SparesFragments d) (hrun : change.run d = .ok (d', ns)) : d'.FragmentsOnTop := by
  cases change with
  | create kind space =>
    cases hrun
    exact htop.create kind space
  | parse markup =>
    rw [run, Except.ok.injEq] at hrun
    have hread := htop.parse markup
    rwa [hrun] at hread
  | move spot n => exact htop.of_spares (Document.spares_move hspares (map_pair_eq_ok.1 hrun).1)
  | insertBefore parent n reference =>
    exact htop.of_spares (Document.spares_insertBefore hspares (map_pair_eq_ok.1 hrun).1)
  | removeChild parent n => exact htop.of_spares (Document.spares_removeChild (map_pair_eq_ok.1 hrun).1)
  | replaceChild parent new old =>
    exact htop.of_spares (Document.spares_replaceChild hspares (map_pair_eq_ok.1 hrun).1)
  | detach n =>
    cases hrun
    exact htop.of_spares (d.spares_detach n)
  | clearChildren n =>
    cases hrun
    exact htop.of_spares (d.spares_clearChildren n)
  | copy n deep =>
    cases hrun
    exact h.fragmentsOnTop_copy htop hchange deep
  | setTextContent n text =>
    cases hrun
    exact htop.of_spares (d.spares_setTextContent n text)
  | editElement n edit =>
    have hrun := (map_pair_eq_ok.1 hrun).1
    rw [Document.onElement] at hrun
    split at hrun
    · cases hrun
      exact htop.of_spares (spares_elementEdit d n edit)
    · cases hrun
  | assign n kind space =>
    cases hrun
    exact htop.assign space hspares
  | register nodes =>
    cases hrun
    exact htop
  | unregister nodes =>
    cases hrun
    exact htop
  | clearRoots =>
    cases hrun
    exact htop

end Change

namespace Workspace

/-! Content. -/

def FragmentsOnTop (ws : Workspace) : Prop := ∀ dom, (ws.document dom).FragmentsOnTop

def Plain (ws : Workspace) (s : Selection) : Prop := ∀ n ∈ s.nodes, ¬ (ws.document s.dom).isFragment n

def PlainContent (ws : Workspace) (dom : DomId) : Content → Prop
  | .markup _ => True
  | .nodes nodes => ws.Plain { dom, nodes }
  | .collection c => ws.Plain c.toSelection

instance (ws : Workspace) (s : Selection) : Decidable (ws.Plain s) :=
  inferInstanceAs (Decidable (∀ n ∈ s.nodes, _))

instance (ws : Workspace) (dom : DomId) :
    (content : Content) → Decidable (ws.PlainContent dom content)
  | .markup _ => inferInstanceAs (Decidable True)
  | .nodes nodes => inferInstanceAs (Decidable (ws.Plain { dom, nodes }))
  | .collection c => inferInstanceAs (Decidable (ws.Plain c.toSelection))

theorem FragmentsOnTop.of_differsAt (htop : ws.FragmentsOnTop) (hsame : ws.DiffersAt dom ws')
    (hd : (ws'.document dom).FragmentsOnTop) : ws'.FragmentsOnTop := by
  intro other
  by_cases heq : other = dom
  · rw [heq]
    exact hd
  · rw [hsame.document_of_ne other heq]
    exact htop other

theorem FragmentsOnTop.update (htop : ws.FragmentsOnTop) (hdom : dom < ws.documents.size)
    {f : Document → Document} (hf : (f (ws.document dom)).FragmentsOnTop) :
    (ws.update dom f).FragmentsOnTop := by
  refine htop.of_differsAt (differsAt_update hdom f) ?_
  rwa [document_update_self hdom]

section Importing
variable {d other : Document} {ns : List NodeId} (hother : other.WellFormed)
  (htop : other.FragmentsOnTop) (hns : ∀ n ∈ ns, other.isAllocated n) (h : d.WellFormed)
include hother htop hns h

theorem fragmentsOnTop_importAll (hd : d.FragmentsOnTop) : (importAll d other ns).1.FragmentsOnTop := by
  induction ns generalizing d with
  | nil => exact hd
  | cons n ns ih =>
    obtain ⟨hn, hns⟩ := List.forall_mem_cons.1 hns
    exact ih hns (h.adds_importNode hother n).wellFormed (hother.fragmentsOnTop_importNode htop hn hd h)

theorem spares_importAll (hkinds : ∀ n ∈ ns, ¬ other.isFragment n) :
    d.Spares (importAll d other ns).1 := by
  induction ns generalizing d with
  | nil => exact .refl d
  | cons n ns ih =>
    obtain ⟨hn, hns⟩ := List.forall_mem_cons.1 hns
    obtain ⟨hkind, hkinds⟩ := List.forall_mem_cons.1 hkinds
    exact (hother.spares_importNode htop hn h hkind).trans
      (ih hns (h.adds_importNode hother n).wellFormed hkinds)

end Importing

/-- What content comes to in a document: nodes of it, which are fragments only if the content has some. -/
structure Supplies (ws : Workspace) (dom : DomId) (content : Content)
    (supplied : Workspace × List NodeId) : Prop where
  differsAt : ws.DiffersAt dom supplied.1
  evolves : (ws.document dom).Evolves (fun _ => False) (supplied.1.document dom)
  fragmentsOnTop : (supplied.1.document dom).FragmentsOnTop
  isAllocated : ∀ n ∈ supplied.2, (supplied.1.document dom).isAllocated n
  plain : ws.PlainContent dom content → ∀ n ∈ supplied.2, ¬ (supplied.1.document dom).isFragment n

theorem Sound.supplies (h : ws.Sound) (htop : ws.FragmentsOnTop) (hdom : dom < ws.documents.size)
    {content : Content} (hcontent : ws.HoldsContent dom content) :
    ws.Supplies dom content (ws.nodesOf dom content) := by
  have hform (dom : DomId) : (ws.document dom).WellFormed := (h.document dom).toWellFormed
  cases content with
  | markup text =>
    obtain ⟨hsame, hdocument, hnodes⟩ := nodesOf_markup hdom text
    obtain ⟨hadds, -⟩ := (hform dom).parse text
    refine ⟨hsame, ?_, ?_, ?_, fun _ => ?_⟩ <;> rw [hdocument]
    · exact (h.document dom).evolves_of_adds hadds
    · exact (htop dom).parse text
    · rw [hnodes]
      exact fun n hn => (hadds.of_mem n hn).2
    · rw [hnodes]
      exact fun n hn => (hform dom).not_isFragment_of_mem_parse (htop dom) hn
  | nodes nodes =>
    exact ⟨.refl dom ws, (h.document dom).evolves_self, htop dom, hcontent.2, id⟩
  | collection c =>
    obtain ⟨hsame, hevolves, hallocated⟩ := h.nodesOf (E := fun _ _ => False) hdom hcontent rfl
    have hkinds : ((ws.nodesOf dom (.collection c)).1.document dom).FragmentsOnTop ∧
        (ws.Plain c.toSelection → ∀ n ∈ (ws.nodesOf dom (.collection c)).2,
          ¬ ((ws.nodesOf dom (.collection c)).1.document dom).isFragment n) := by
      simp only [Workspace.nodesOf]
      split
      · rename_i heq
        subst heq
        exact ⟨htop c.dom, id⟩
      · simp only [setDocument, document_update_self hdom]
        have hadds := adds_importAll (hform dom) (hform c.dom) c.nodes
        refine ⟨fragmentsOnTop_importAll (hform c.dom) (htop c.dom) hcontent.1.2 (hform dom) (htop dom),
          fun hplain n hn => ?_⟩
        exact (spares_importAll (hform c.dom) (htop c.dom) hcontent.1.2 (hform dom)
          hplain).not_isFragment_of_le (hadds.of_mem n hn).1
    exact ⟨hsame, hevolves, hkinds.1, hallocated, hkinds.2⟩

theorem Supplies.fragmentsOnTop_update {content : Content} {supplied : Workspace × List NodeId}
    (hsupplied : ws.Supplies dom content supplied) (htop : ws.FragmentsOnTop)
    (hdom : dom < ws.documents.size) {f : Document → Document}
    (hf : (supplied.1.document dom).Spares (f (supplied.1.document dom))) :
    (supplied.1.update dom f).FragmentsOnTop := by
  have hdom' : dom < supplied.1.documents.size := hsupplied.differsAt.size_eq ▸ hdom
  refine htop.of_differsAt (hsupplied.differsAt.trans (differsAt_update hdom' f)) ?_
  rw [document_update_self hdom']
  exact hsupplied.fragmentsOnTop.of_spares hf

theorem Plain.not_isFragment (hplain : ws.Plain c.toSelection) (hc : ws.Holds c.toSelection)
    {d : Document} (hd : (ws.document c.dom).Evolves (fun _ => False) d) :
    ∀ n ∈ c.nodes, ¬ d.isFragment n := by
  intro n hn
  rw [Document.isFragment_congr (hd.data? n (hc.2 n hn) id)]
  exact hplain n hn

/-! Changes around the nodes of a collection. -/

section Around
variable (h : ws.Sound) (htop : ws.FragmentsOnTop) (hc : ws.Holds c.toSelection)
include h htop hc

theorem fragmentsOnTop_setMarkup (markup : String) : (ws.setMarkup c markup).FragmentsOnTop := by
  refine htop.update hc.1 ?_
  dsimp only
  let elements := c.nodes.filter (ws.document c.dom).isElement
  let bare := elements.foldl Document.clearChildren (ws.document c.dom)
  have hbare : (ws.document c.dom).Evolves (fun _ => False) bare :=
    (h.document c.dom).evolves_foldl fun hd' _ n _ => hd'.evolves_clearChildren n
  have hspares : (ws.document c.dom).Spares bare := .foldl fun d' _ n _ => d'.spares_clearChildren n
  have hbareTop := (htop c.dom).of_spares hspares
  obtain ⟨hadds, -⟩ := hbare.sound.toWellFormed.parse markup
  have hread := hbareTop.parse markup
  have hplaced := hadds.wellFormed.spares_distribute hread .append (fun n hn =>
    ⟨(hadds.of_mem n hn).2, hbare.sound.toWellFormed.not_isFragment_of_mem_parse hbareTop hn⟩)
    fun t (ht : t ∈ elements) => hadds.grows.toExtends.isAllocated
      (hbare.isAllocated t (hc.2 t (List.mem_of_mem_filter ht)))
  exact hread.of_spares (hplaced.trans (Document.spares_discardScratch _ _))

variable {content : Content} (hcontent : ws.HoldsContent c.dom content)
include hcontent

theorem fragmentsOnTop_insert (hplain : ws.PlainContent c.dom content) (place : Place) :
    (ws.insert c content place).FragmentsOnTop := by
  have hsupplied := h.supplies htop hc.1 hcontent
  have hplaced := hsupplied.evolves.sound.toWellFormed.spares_distribute hsupplied.fragmentsOnTop place
    (fun n hn => ⟨hsupplied.isAllocated n hn, hsupplied.plain hplain n hn⟩)
    fun t ht => hsupplied.evolves.isAllocated t (hc.2 t ht)
  exact hsupplied.fragmentsOnTop_update htop hc.1 (hplaced.trans (Document.spares_discardScratch _ _))

theorem fragmentsOnTop_wrapWith {wrap : Document → NodeId → Document}
    (hwrap : ∀ (d : Document) (template : NodeId), (ws.document c.dom).Evolves (fun _ => False) d →
      d.FragmentsOnTop → d.isElement template → d.Spares (wrap d template)) :
    (ws.wrapWith c content wrap).FragmentsOnTop := by
  have hsupplied := h.supplies htop hc.1 hcontent
  refine hsupplied.fragmentsOnTop_update htop hc.1 ?_
  dsimp only
  split
  · rename_i template hfound
    have hwrapped := hwrap _ template hsupplied.evolves hsupplied.fragmentsOnTop (List.find?_some hfound)
    exact hwrapped.trans (Document.spares_discardScratch _ _)
  · exact Document.spares_discardScratch _ _

theorem fragmentsOnTop_wrapInner : (ws.wrapInner c content).FragmentsOnTop :=
  fragmentsOnTop_wrapWith h htop hc hcontent fun _ _ hd hdtop htemplate =>
    hd.sound.toWellFormed.spares_wrapInside hdtop htemplate fun n hn => hd.isAllocated n (hc.2 n hn)

variable (hplain : ws.Plain c.toSelection)
include hplain

theorem fragmentsOnTop_wrap : (ws.wrap c content).FragmentsOnTop := by
  refine fragmentsOnTop_wrapWith h htop hc hcontent fun d _ hd hdtop htemplate => ?_
  exact hd.sound.toWellFormed.spares_wrapEach hdtop htemplate fun n hn =>
    ⟨hd.isAllocated n (hc.2 n hn), hplain.not_isFragment hc hd n hn⟩

theorem fragmentsOnTop_wrapAll : (ws.wrapAll c content).FragmentsOnTop := by
  rw [wrapAll]
  split
  · exact htop
  exact fragmentsOnTop_wrapWith h htop hc hcontent fun d _ hd hdtop htemplate =>
    hd.sound.toWellFormed.spares_wrapTogether hdtop htemplate (hplain.not_isFragment hc hd)

end Around
end Workspace

/-! Operations. -/

namespace Rework

/-- No fragment is inserted or wrapped. Content to wrap with may hold some, as elements of it are all
that is used. -/
def SparesFragments (ws : Workspace) (c : Collection) : Rework → Prop
  | .insert content _ => ws.PlainContent c.dom content
  | .wrap _ => ws.Plain c.toSelection
  | .wrapAll _ => ws.Plain c.toSelection
  | _ => True

instance (ws : Workspace) (c : Collection) :
    (rework : Rework) → Decidable (rework.SparesFragments ws c)
  | .insert content _ => inferInstanceAs (Decidable (ws.PlainContent c.dom content))
  | .wrap _ => inferInstanceAs (Decidable (ws.Plain c.toSelection))
  | .wrapAll _ => inferInstanceAs (Decidable (ws.Plain c.toSelection))
  | .wrapInner _ => inferInstanceAs (Decidable True)
  | .remove _ => inferInstanceAs (Decidable True)
  | .empty => inferInstanceAs (Decidable True)
  | .setText _ => inferInstanceAs (Decidable True)
  | .setMarkup _ => inferInstanceAs (Decidable True)
  | .setAttribute _ _ => inferInstanceAs (Decidable True)
  | .removeAttribute _ => inferInstanceAs (Decidable True)
  | .setProperty _ _ => inferInstanceAs (Decidable True)
  | .addClass _ => inferInstanceAs (Decidable True)
  | .removeClass _ => inferInstanceAs (Decidable True)
  | .toggleClass _ _ => inferInstanceAs (Decidable True)

theorem fragmentsOnTop {rework : Rework} (h : ws.Sound) (htop : ws.FragmentsOnTop)
    (hc : ws.HoldsChain c) (hadmissible : rework.Admissible ws c)
    (hspares : rework.SparesFragments ws c) (hrun : rework.run ws c = .ok ws') : ws'.FragmentsOnTop := by
  have hspared {f : Document → Document} (hf : (ws.document c.dom).Spares (f (ws.document c.dom))) :
      (ws.update c.dom f).FragmentsOnTop := htop.update hc.1.1 ((htop c.dom).of_spares hf)
  have hedit (f : Element → Element) := (ws.document c.dom).spares_editElements c.nodes f
  cases rework with
  | insert content place =>
    obtain rfl := Except.ok.inj hrun
    exact Workspace.fragmentsOnTop_insert h htop hc.1 hadmissible hspares place
  | wrap content =>
    obtain rfl := Except.ok.inj hrun
    exact Workspace.fragmentsOnTop_wrap h htop hc.1 hadmissible hspares
  | wrapAll content =>
    obtain rfl := Except.ok.inj hrun
    exact Workspace.fragmentsOnTop_wrapAll h htop hc.1 hadmissible hspares
  | wrapInner content =>
    obtain rfl := Except.ok.inj hrun
    exact Workspace.fragmentsOnTop_wrapInner h htop hc.1 hadmissible
  | remove filter =>
    obtain ⟨filter, -, hrun⟩ := bind_eq_ok.1 hrun
    obtain rfl := Except.ok.inj hrun
    have hout := (ws.document c.dom).spares_foldl_detach ((ws.document c.dom).applyFilter filter c.nodes)
    exact hspared ⟨hout.isFragment, hout.parent?⟩
  | empty =>
    obtain rfl := Except.ok.inj hrun
    exact hspared (.foldl fun d' _ n _ => d'.spares_clearChildren n)
  | setText text =>
    obtain rfl := Except.ok.inj hrun
    exact hspared (.foldl fun d' _ n _ => d'.spares_setTextContent n text)
  | setMarkup markup =>
    obtain rfl := Except.ok.inj hrun
    exact Workspace.fragmentsOnTop_setMarkup h htop hc.1 markup
  | setAttribute name value =>
    obtain rfl := Except.ok.inj hrun
    exact hspared (hedit _)
  | removeAttribute name =>
    obtain rfl := Except.ok.inj hrun
    exact hspared (hedit _)
  | setProperty name value =>
    obtain rfl := Except.ok.inj hrun
    exact hspared (hedit _)
  | addClass names =>
    obtain rfl := Except.ok.inj hrun
    exact hspared (hedit _)
  | removeClass names =>
    obtain rfl := Except.ok.inj hrun
    exact hspared (hedit _)
  | toggleClass names wanted =>
    obtain rfl := Except.ok.inj hrun
    exact hspared (hedit _)

end Rework

namespace Operation

/-- The operation is not called to put a fragment into a node. -/
def SparesFragments (ws : Workspace) : Operation → Prop
  | .change dom step => step.SparesFragments (ws.document dom)
  | .rework c step => step.SparesFragments ws c
  | .insertAt c _ _ => ws.Plain c.toSelection
  | _ => True

instance (ws : Workspace) : (op : Operation) → Decidable (op.SparesFragments ws)
  | .change dom step => inferInstanceAs (Decidable (step.SparesFragments (ws.document dom)))
  | .rework c step => inferInstanceAs (Decidable (step.SparesFragments ws c))
  | .insertAt c _ _ => inferInstanceAs (Decidable (ws.Plain c.toSelection))
  | .newDocument => inferInstanceAs (Decidable True)
  | .reset => inferInstanceAs (Decidable True)
  | .query _ => inferInstanceAs (Decidable True)
  | .parse _ _ => inferInstanceAs (Decidable True)
  | .fragment _ _ => inferInstanceAs (Decidable True)
  | .select _ _ => inferInstanceAs (Decidable True)
  | .collect _ _ => inferInstanceAs (Decidable True)
  | .sort _ _ => inferInstanceAs (Decidable True)
  | .queryAll _ _ _ _ => inferInstanceAs (Decidable True)
  | .roots _ => inferInstanceAs (Decidable True)
  | .liveRoots _ => inferInstanceAs (Decidable True)
  | .look _ _ _ => inferInstanceAs (Decidable True)
  | .importNode _ _ _ => inferInstanceAs (Decidable True)
  | .derive _ _ => inferInstanceAs (Decidable True)
  | .add _ _ => inferInstanceAs (Decidable True)
  | .cloneNodes _ => inferInstanceAs (Decidable True)

end Operation

namespace Workspace

theorem fragmentsOnTop_parseForest (htop : ws.FragmentsOnTop) (hdom : dom < ws.documents.size)
    (markup : String) : (ws.parseForest dom markup).1.FragmentsOnTop ∧
      dom < (ws.parseForest dom markup).1.documents.size := by
  have hread := (htop dom).parse markup
  rw [parseForest]
  generalize (ws.document dom).parse markup = read at hread
  exact ⟨htop.update hdom hread, (differsAt_update hdom fun _ => read.1).size_eq ▸ hdom⟩

theorem fragmentsOnTop_parse (htop : ws.FragmentsOnTop) (hdom : dom < ws.documents.size)
    (markup : String) : (ws.parse dom markup).1.FragmentsOnTop := by
  obtain ⟨hread, hdom'⟩ := fragmentsOnTop_parseForest htop hdom markup
  rw [parse]
  generalize ws.parseForest dom markup = read at hread hdom'
  exact hread.update hdom' (hread dom)

theorem FragmentsOnTop.newDocument (htop : ws.FragmentsOnTop) : ws.newDocument.1.FragmentsOnTop := by
  intro dom
  rw [Workspace.newDocument, document_push]
  exact htop dom

theorem FragmentsOnTop.insertAt (htop : ws.FragmentsOnTop) (h : ws.Sound) (hc : ws.HoldsChain c)
    {target : Target} (htarget : ws.HoldsTarget c.dom target) (hplain : ws.Plain c.toSelection)
    {place : Place} (hrun : ws.insertAt c target place = .ok (ws', c')) : ws'.FragmentsOnTop := by
  obtain ⟨⟨dom, targets⟩, hresolved, hrun⟩ := bind_eq_ok.1 hrun
  obtain ⟨hdom, htargets⟩ : dom < ws.documents.size ∧ ∀ t ∈ targets, (ws.document dom).isAllocated t :=
    holds_resolve hc.1.1 htarget hresolved
  have hsupplied := h.supplies htop hdom (show ws.HoldsContent dom (.collection c) from hc)
  obtain ⟨rfl, -⟩ := Prod.mk.inj (Except.ok.inj hrun)
  exact hsupplied.fragmentsOnTop_update htop hdom (hsupplied.evolves.sound.toWellFormed.spares_distribute
    hsupplied.fragmentsOnTop place
    (fun n hn => ⟨hsupplied.isAllocated n hn, hsupplied.plain hplain n hn⟩)
    fun t ht => hsupplied.evolves.isAllocated t (htargets t ht))

theorem FragmentsOnTop.perform (htop : ws.FragmentsOnTop) (h : ws.Sound) (hop : op.Admissible ws)
    (hspares : op.SparesFragments ws) (hrun : ws.perform op = .ok (ws', c)) : ws'.FragmentsOnTop := by
  cases op with
  | newDocument =>
    obtain ⟨rfl, -⟩ := Prod.mk.inj (Except.ok.inj hrun)
    exact htop.newDocument
  | reset =>
    obtain ⟨rfl, -⟩ := Prod.mk.inj (Except.ok.inj hrun)
    exact htop.newDocument
  | query input =>
    have hrun := mapError_eq_ok.1 hrun
    rw [query] at hrun
    split at hrun
    · have hparse := fragmentsOnTop_parse htop h.current_lt (String.ofList (Text.trim input.toList))
      rw [Except.ok.injEq] at hrun
      rwa [hrun] at hparse
    · obtain ⟨found, -, heq⟩ := map_eq_ok.1 hrun
      obtain ⟨rfl, -⟩ := Prod.mk.inj heq
      exact htop
  | parse dom markup =>
    have hparse := fragmentsOnTop_parse htop hop markup
    rw [Workspace.perform, Except.ok.injEq] at hrun
    rwa [hrun] at hparse
  | fragment dom markup =>
    have hread := (fragmentsOnTop_parseForest htop hop markup).1
    rw [Workspace.perform, Except.ok.injEq, fragment] at hrun
    obtain ⟨rfl, -⟩ := Prod.mk.inj hrun
    exact hread
  | select dom selector =>
    obtain ⟨found, -, heq⟩ := map_eq_ok.1 (mapError_eq_ok.1 hrun)
    obtain ⟨rfl, -⟩ := Prod.mk.inj heq
    exact htop
  | collect dom nodes =>
    obtain ⟨rfl, -⟩ := Prod.mk.inj (Except.ok.inj hrun)
    exact htop
  | sort dom nodes =>
    obtain ⟨rfl, -⟩ := Prod.mk.inj (Except.ok.inj hrun)
    exact htop
  | queryAll dom nodes selector scope =>
    obtain ⟨rfl, -⟩ := Prod.mk.inj (Except.ok.inj hrun)
    exact htop
  | roots dom =>
    obtain ⟨rfl, -⟩ := Prod.mk.inj (Except.ok.inj hrun)
    exact htop
  | liveRoots dom =>
    obtain ⟨rfl, -⟩ := Prod.mk.inj (Except.ok.inj hrun)
    exact htop
  | look dom axis n =>
    obtain ⟨rfl, -⟩ := Prod.mk.inj (Except.ok.inj hrun)
    exact htop
  | change dom step =>
    obtain ⟨⟨d, ns⟩, hstep, heq⟩ := map_eq_ok.1 (mapError_eq_ok.1 hrun)
    obtain ⟨rfl, -⟩ := Prod.mk.inj heq
    exact htop.update hop.1
      (Change.fragmentsOnTop (h.document dom).toWellFormed (htop dom) hop.2 hspares hstep)
  | importNode dom other n =>
    obtain ⟨rfl, -⟩ := Prod.mk.inj (Except.ok.inj hrun)
    exact htop.update hop.1 ((h.document other).toWellFormed.fragmentsOnTop_importNode (htop other)
      (hop.2.2 n List.mem_cons_self) (htop dom) (h.document dom).toWellFormed)
  | derive c step =>
    obtain ⟨found, -, heq⟩ := map_eq_ok.1 (mapError_eq_ok.1 hrun)
    obtain ⟨rfl, -⟩ := Prod.mk.inj heq
    exact htop
  | add c target =>
    obtain ⟨found, -, heq⟩ := map_eq_ok.1 (mapError_eq_ok.1 hrun)
    obtain ⟨rfl, -⟩ := Prod.mk.inj heq
    exact htop
  | rework c step =>
    obtain ⟨after, hstep, heq⟩ := map_eq_ok.1 (mapError_eq_ok.1 hrun)
    obtain ⟨rfl, -⟩ := Prod.mk.inj heq
    exact step.fragmentsOnTop h htop hop.1 hop.2 hspares hstep
  | insertAt c target place => exact htop.insertAt h hop.1 hop.2 hspares (mapError_eq_ok.1 hrun)
  | cloneNodes c =>
    obtain ⟨rfl, -⟩ := Prod.mk.inj (Except.ok.inj hrun)
    exact htop.update hop.1.1
      ((h.document c.dom).toWellFormed.fragmentsOnTop_copyAll (htop c.dom) hop.1.2)

theorem FragmentsOnTop.after (htop : ws.FragmentsOnTop) (h : ws.Sound) (hop : op.Admissible ws)
    (hspares : op.SparesFragments ws) : (ws.after op).FragmentsOnTop := by
  rw [Workspace.after]
  split
  · rename_i hrun
    exact htop.perform h hop hspares hrun
  · exact htop

/-! Runs. -/

/-- No operation of a run is called to put a fragment into a node. -/
def SparesFragments (ws : Workspace) : List Operation → Prop
  | [] => True
  | op :: ops => op.SparesFragments ws ∧ (ws.after op).SparesFragments ops

def decidableSparesFragments : (ws : Workspace) → (ops : List Operation) →
    Decidable (ws.SparesFragments ops)
  | _, [] => inferInstanceAs (Decidable True)
  | ws, op :: ops =>
    have := decidableSparesFragments (ws.after op) ops
    inferInstanceAs (Decidable (op.SparesFragments ws ∧ (ws.after op).SparesFragments ops))

instance (ws : Workspace) (ops : List Operation) : Decidable (ws.SparesFragments ops) :=
  decidableSparesFragments ws ops

theorem FragmentsOnTop.run {ops : List Operation} (htop : ws.FragmentsOnTop) (h : ws.Sound)
    (hops : ws.Admits ops) (hspares : ws.SparesFragments ops) : (ws.run ops).FragmentsOnTop := by
  induction ops generalizing ws with
  | nil => exact htop
  | cons op ops ih =>
    exact ih (htop.after h hops.1 hspares.1) (h.after hops.1).sound hops.2 hspares.2

theorem fragmentsOnTop_empty : ({} : Workspace).FragmentsOnTop := by
  intro dom
  rw [document_empty]
  decide

end Workspace
end DomQuery
