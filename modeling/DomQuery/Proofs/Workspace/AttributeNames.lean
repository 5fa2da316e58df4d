import DomQuery.Proofs.Markup.AttributeOrder
import DomQuery.Proofs.Workspace.Runs

/-!
Names of attributes in a run. Elements that are read from markup have distinct names, whatever the markup
says, and so have those that a caller makes; no operation of the library puts a second attribute of one
name into an element. So sorted markup shows what the attributes are and not in which order they were set.
-/
namespace DomQuery

/-! Markup. -/

namespace Document.NamesDistinct
variable {d : Document}

theorem putText (h : d.NamesDistinct) (spot : Spot) (text : String) : (d.putText spot text).NamesDistinct := by
  have hkind : (Kind.text text).NamesDistinct := trivial
  exact (h.create hkind .html).tryPut spot _

theorem appendText (h : d.NamesDistinct) (p : NodeId) (text : String) : (d.appendText p text).NamesDistinct := by
  rw [Document.appendText]
  split
  · exact h.putText _ text
  split
  · exact h.putText _ text
  · refine h.modify fun node hnode => ?_
    split
    · exact trivial
    · exact hnode

theorem liftForest (h : d.NamesDistinct) (c : NodeId) : (d.liftForest c).1.NamesDistinct := by
  rw [Document.liftForest]
  refine discardIfDrained (foldl (foldl (foldl h _ ?_) _ ?_) _ ?_) c
  · exact fun _ hd' n => hd'.detach n
  · exact fun _ hd' n => hd'.discard n
  · exact fun _ hd' n => hd'.put _ n

end Document.NamesDistinct

namespace Markup.Site
variable {d : Document} {s : Site}

theorem namesDistinct_append (h : s.document.NamesDistinct) (parent : Option Handle) (addition : Addition) :
    (s.append parent addition).document.NamesDistinct := by
  cases addition with
  | node handle =>
    rw [append]
    split
    · exact h.tryPut _ _
    · exact h
  | text text =>
    rw [append]
    split
    · exact h.appendText _ text
    · exact h

theorem namesDistinct_apply (h : s.document.NamesDistinct) (edit : Edit) :
    (s.apply edit).document.NamesDistinct := by
  cases edit with
  | element tag ns attributes =>
    have hkind : (Kind.element { tag, attributes := .ofPairs attributes }).NamesDistinct :=
      Entries.distinct_ofPairs attributes
    exact h.create hkind ns
  | comment text =>
    have hkind : (Kind.comment text).NamesDistinct := trivial
    exact h.create hkind .html
  | insert point addition =>
    cases point with
    | inside parent => exact namesDistinct_append h parent addition
    | misplaced table around => exact namesDistinct_append h (some table) addition
    | before sibling =>
      cases addition with
      | node handle =>
        rw [apply, insert, appendBefore]
        split
        · exact h.tryPut _ _
        · exact h
      | text text =>
        rw [apply, insert, appendBefore]
        split
        · exact h.putText _ text
        · exact h
  | detach node =>
    rw [apply]
    split
    · exact h.detach _
    · exact h
  | moveChildren source target =>
    rw [apply]
    split
    · exact h.tryPutAll _ _
    · exact h

theorem namesDistinct_run (h : d.NamesDistinct) (edits : List Edit) : (run d edits).document.NamesDistinct := by
  have hkind : Kind.fragment.NamesDistinct := trivial
  have hstart : (startIn d).document.NamesDistinct := h.create hkind .html
  exact List.foldlRecOn edits apply (motive := fun s => s.document.NamesDistinct) hstart
    fun _ h edit _ => namesDistinct_apply h edit

end Markup.Site

theorem Document.NamesDistinct.parse {d : Document} (h : d.NamesDistinct) (markup : String) :
    (d.parse markup).1.NamesDistinct := (Markup.Site.namesDistinct_run h _).liftForest _

/-! Operations. -/

/-- A caller who hands in the data of an element, or changes it at will, gives no name twice. -/
def Change.NamesDistinct : Change → Prop
  | .create kind _ => kind.NamesDistinct
  | .assign _ kind _ => kind.NamesDistinct
  | .editElement _ (.custom edit) => ∀ e, e.attributes.Distinct → (edit e).attributes.Distinct
  | _ => True

def Operation.NamesDistinct : Operation → Prop
  | .change _ step => step.NamesDistinct
  | _ => True

namespace Document.NamesDistinct
variable {d d' : Document} {ns : List NodeId}

theorem elementEdit (h : d.NamesDistinct) {n : NodeId} {edit : ElementEdit}
    (hedit : (Change.editElement n edit).NamesDistinct) : (edit.run d n).NamesDistinct := by
  cases edit with
  | setAttribute name value => exact h.modifyElement fun e he => he.set name value
  | removeAttribute name => exact h.modifyElement fun e he => he.remove name
  | setProperty name value => exact h.modifyElement fun e he => he
  | removeProperty name => exact h.modifyElement fun e he => he
  | custom edit => exact h.modifyElement hedit

theorem move (h : d.NamesDistinct) {spot : Spot} {n : NodeId} (hmove : d.move spot n = .ok d') :
    d'.NamesDistinct := by
  rw [Document.move] at hmove
  split at hmove
  · cases hmove
  · cases hmove
    exact h.put spot n

theorem change (h : d.NamesDistinct) {change : Change} (hchange : change.NamesDistinct)
    (hrun : change.run d = .ok (d', ns)) : d'.NamesDistinct := by
  cases change with
  | create kind space =>
    cases hrun
    exact h.create hchange space
  | parse markup =>
    have hparse := h.parse markup
    rw [Change.run, Except.ok.injEq] at hrun
    rwa [hrun] at hparse
  | move spot n => exact h.move (map_pair_eq_ok.1 hrun).1
  | insertBefore parent n reference =>
    have hmove := (map_pair_eq_ok.1 hrun).1
    cases reference with
    | none => exact h.move hmove
    | some s =>
      rw [Document.insertBefore] at hmove
      split at hmove
      · exact h.move hmove
      · cases hmove
  | removeChild parent n =>
    have hmove := (map_pair_eq_ok.1 hrun).1
    rw [Document.removeChild] at hmove
    split at hmove
    · cases hmove
      exact h.detach n
    · cases hmove
  | replaceChild parent new old =>
    have hmove := (map_pair_eq_ok.1 hrun).1
    rw [Document.replaceChild] at hmove
    split at hmove
    · cases hmove
    split at hmove
    · cases hmove
      exact h
    split at hmove
    · cases hmove
    · cases hmove
      exact (h.put _ new).detach old
  | detach n =>
    cases hrun
    exact h.detach n
  | clearChildren n =>
    cases hrun
    exact h.clearChildren n
  | copy n deep =>
    cases hrun
    exact h.copy n deep
  | setTextContent n text =>
    cases hrun
    exact h.setTextContent n text
  | editElement n edit =>
    have hedit := (map_pair_eq_ok.1 hrun).1
    rw [Document.onElement] at hedit
    split at hedit
    · cases hedit
      exact h.elementEdit hchange
    · cases hedit
  | assign n kind space =>
    cases hrun
    exact h.modify fun _ _ => hchange
  | register nodes =>
    cases hrun
    exact h.register nodes
  | unregister nodes =>
    cases hrun
    exact h.unregister nodes
  | clearRoots =>
    cases hrun
    exact h

end Document.NamesDistinct

namespace Workspace
variable {ws ws' : Workspace} {dom : DomId} {c c' : Collection} {op : Operation}

def NamesDistinct (ws : Workspace) : Prop := ∀ dom, (ws.document dom).NamesDistinct

namespace NamesDistinct

theorem update (h : ws.NamesDistinct) (dom : DomId) {f : Document → Document}
    (hf : (f (ws.document dom)).NamesDistinct) : (ws.update dom f).NamesDistinct := by
  intro other
  rw [document, Workspace.update, Array.getD_eq_getD_getElem?, Array.getElem?_modify]
  have hother := h other
  split
  · rename_i heq
    subst heq
    rw [document, Array.getD_eq_getD_getElem?] at hf
    cases hd : ws.documents[dom]? with
    | none => exact Document.namesDistinct_empty
    | some d =>
      rw [hd] at hf
      exact hf
  · rwa [document, Array.getD_eq_getD_getElem?] at hother

theorem setDocument (h : ws.NamesDistinct) (dom : DomId) {d : Document} (hd : d.NamesDistinct) :
    (ws.setDocument dom d).NamesDistinct := h.update dom hd

theorem newDocument (h : ws.NamesDistinct) : ws.newDocument.1.NamesDistinct := fun dom => by
  rw [Workspace.newDocument, document_push]
  exact h dom

theorem parseForest (h : ws.NamesDistinct) (dom : DomId) (markup : String) :
    (ws.parseForest dom markup).1.NamesDistinct := by
  have hread := (h dom).parse markup
  rw [Workspace.parseForest]
  generalize (ws.document dom).parse markup = read at hread ⊢
  exact h.setDocument dom hread

theorem parse (h : ws.NamesDistinct) (dom : DomId) (markup : String) :
    (ws.parse dom markup).1.NamesDistinct := by
  have hread := h.parseForest dom markup
  rw [Workspace.parse]
  exact hread.update dom ((hread dom).register _)

theorem query (h : ws.NamesDistinct) {input : String} (hrun : ws.query input = .ok (ws', c)) :
    ws'.NamesDistinct := by
  rw [Workspace.query] at hrun
  split at hrun
  · have hparse := h.parse ws.current (String.ofList (Text.trim input.toList))
    rwa [Except.ok.inj hrun] at hparse
  · obtain ⟨_, -, heq⟩ := map_eq_ok.1 hrun
    obtain ⟨rfl, -⟩ := Prod.mk.inj heq
    exact h

theorem importAll {d other : Document} (hd : d.NamesDistinct) (hother : other.NamesDistinct)
    (ns : List NodeId) : (importAll d other ns).1.NamesDistinct := by
  induction ns generalizing d with
  | nil => exact hd
  | cons n ns ih => exact ih (hd.importNode hother n)

theorem nodesOf (h : ws.NamesDistinct) (dom : DomId) (content : Content) :
    (ws.nodesOf dom content).1.NamesDistinct := by
  cases content with
  | markup text => exact h.parseForest dom text
  | nodes nodes => exact h
  | collection c =>
    rw [Workspace.nodesOf]
    split
    · exact h
    · exact h.setDocument dom (importAll (h dom) (h c.dom) c.nodes)

theorem insert (h : ws.NamesDistinct) (c : Collection) (content : Content) (place : Place) :
    (ws.insert c content place).NamesDistinct := by
  have hread := h.nodesOf c.dom content
  exact hread.update c.dom (((hread c.dom).distribute place _ _).discardScratch _)

theorem insertAt (h : ws.NamesDistinct) {target : Target} {place : Place}
    (hrun : ws.insertAt c target place = .ok (ws', c')) : ws'.NamesDistinct := by
  obtain ⟨⟨dom, targets⟩, -, hrun⟩ := bind_eq_ok.1 hrun
  have hread := h.nodesOf dom (.collection c)
  obtain ⟨rfl, -⟩ := Prod.mk.inj (Except.ok.inj hrun)
  exact hread.setDocument dom ((hread dom).distribute place targets _)

theorem wrapWith (h : ws.NamesDistinct) (c : Collection) (content : Content)
    {wrap : Document → NodeId → Document}
    (hwrap : ∀ d, d.NamesDistinct → ∀ template, (wrap d template).NamesDistinct) :
    (ws.wrapWith c content wrap).NamesDistinct := by
  have hread := h.nodesOf c.dom content
  refine hread.update c.dom ?_
  dsimp only
  split
  · exact (hwrap _ (hread c.dom) _).discardScratch _
  · exact (hread c.dom).discardScratch _

theorem setMarkup (h : ws.NamesDistinct) (c : Collection) (markup : String) :
    (ws.setMarkup c markup).NamesDistinct := by
  refine h.update c.dom ?_
  have hbare := (h c.dom).foldl (c.nodes.filter (ws.document c.dom).isElement)
    fun _ hd' n => hd'.clearChildren n
  have hread := hbare.parse markup
  dsimp only
  generalize Document.parse _ markup = read at hread ⊢
  exact (hread.distribute .append _ _).discardScratch _

theorem editElements (h : ws.NamesDistinct) (c : Collection) {f : Element → Element}
    (hf : ∀ e, e.attributes.Distinct → (f e).attributes.Distinct) :
    (ws.update c.dom fun d => c.nodes.foldl (fun d n => d.modifyElement n f) d).NamesDistinct :=
  h.update c.dom ((h c.dom).foldl _ fun _ hd' _ => hd'.modifyElement hf)

theorem rework (h : ws.NamesDistinct) {rework : Rework} (hrun : rework.run ws c = .ok ws') :
    ws'.NamesDistinct := by
  cases rework with
  | insert content place =>
    obtain rfl := Except.ok.inj hrun
    exact h.insert c content place
  | wrap content =>
    obtain rfl := Except.ok.inj hrun
    exact h.wrapWith c content fun _ hd template => hd.wrapEach template c.nodes
  | wrapAll content =>
    obtain rfl := Except.ok.inj hrun
    rw [wrapAll]
    split
    · exact h
    · exact h.wrapWith c content fun _ hd template => hd.wrapTogether template c.nodes
  | wrapInner content =>
    obtain rfl := Except.ok.inj hrun
    exact h.wrapWith c content fun _ hd template => hd.wrapInside template c.nodes
  | remove filter =>
    obtain ⟨filter, -, hrun⟩ := bind_eq_ok.1 hrun
    obtain rfl := Except.ok.inj hrun
    have hout := (h c.dom).foldl ((ws.document c.dom).applyFilter filter c.nodes)
      fun _ hd' n => hd'.detach n
    exact h.update c.dom (hout.unregister _)
  | empty =>
    obtain rfl := Except.ok.inj hrun
    exact h.update c.dom ((h c.dom).foldl _ fun _ hd' n => hd'.clearChildren n)
  | setText text =>
    obtain rfl := Except.ok.inj hrun
    exact h.update c.dom ((h c.dom).foldl _ fun _ hd' n => hd'.setTextContent n text)
  | setMarkup markup =>
    obtain rfl := Except.ok.inj hrun
    exact h.setMarkup c markup
  | setAttribute name value =>
    obtain rfl := Except.ok.inj hrun
    exact h.editElements c fun _ he => he.set name value
  | removeAttribute name =>
    obtain rfl := Except.ok.inj hrun
    exact h.editElements c fun _ he => he.remove name
  | setProperty name value =>
    obtain rfl := Except.ok.inj hrun
    exact h.editElements c fun _ he => he
  | addClass _ | removeClass _ | toggleClass _ _ =>
    obtain rfl := Except.ok.inj hrun
    exact h.editElements c fun _ he => Element.distinct_editClasses he _

theorem perform (h : ws.NamesDistinct) (hop : op.NamesDistinct) (hrun : ws.perform op = .ok (ws', c)) :
    ws'.NamesDistinct := by
  cases op with
  | newDocument | reset =>
    obtain ⟨rfl, -⟩ := Prod.mk.inj (Except.ok.inj hrun)
    exact h.newDocument
  | query input => exact h.query (mapError_eq_ok.1 hrun)
  | parse dom markup =>
    have hparse := h.parse dom markup
    rw [Workspace.perform, Except.ok.injEq] at hrun
    rwa [hrun] at hparse
  | fragment dom markup =>
    have hread := h.parseForest dom markup
    rw [Workspace.perform, Except.ok.injEq, fragment] at hrun
    obtain ⟨rfl, -⟩ := Prod.mk.inj hrun
    exact hread
  | collect _ _ | sort _ _ | queryAll _ _ _ _ | roots _ | liveRoots _ | look _ _ _ =>
    obtain ⟨rfl, -⟩ := Prod.mk.inj (Except.ok.inj hrun)
    exact h
  | select _ _ | derive _ _ | add _ _ =>
    obtain ⟨_, -, heq⟩ := map_eq_ok.1 (mapError_eq_ok.1 hrun)
    obtain ⟨rfl, -⟩ := Prod.mk.inj heq
    exact h
  | change dom step =>
    obtain ⟨⟨d, ns⟩, hstep, heq⟩ := map_eq_ok.1 (mapError_eq_ok.1 hrun)
    obtain ⟨rfl, -⟩ := Prod.mk.inj heq
    exact h.setDocument dom ((h dom).change hop hstep)
  | importNode dom other n =>
    obtain ⟨rfl, -⟩ := Prod.mk.inj (Except.ok.inj hrun)
    exact h.setDocument dom ((h dom).importNode (h other) n)
  | rework c step =>
    obtain ⟨_, hstep, heq⟩ := map_eq_ok.1 (mapError_eq_ok.1 hrun)
    obtain ⟨rfl, -⟩ := Prod.mk.inj heq
    exact h.rework hstep
  | insertAt c target place => exact h.insertAt (mapError_eq_ok.1 hrun)
  | cloneNodes c =>
    obtain ⟨rfl, -⟩ := Prod.mk.inj (Except.ok.inj hrun)
    exact h.setDocument c.dom ((h c.dom).copyAll c.nodes)

theorem after (h : ws.NamesDistinct) (hop : op.NamesDistinct) : (ws.after op).NamesDistinct := by
  rw [Workspace.after]
  split
  · rename_i heq
    exact h.perform hop heq
  · exact h

theorem run {ops : List Operation} (h : ws.NamesDistinct) (hops : ∀ op ∈ ops, op.NamesDistinct) :
    (ws.run ops).NamesDistinct :=
  List.foldlRecOn ops Workspace.after h fun _ hws op hop => hws.after (hops op hop)

end NamesDistinct

theorem namesDistinct_empty : ({} : Workspace).NamesDistinct := fun dom => by
  rw [document_empty]
  exact Document.namesDistinct_empty

theorem namesDistinct_run (ops : List Operation) (hops : ∀ op ∈ ops, op.NamesDistinct) (dom : DomId) :
    ((({} : Workspace).run ops).document dom).NamesDistinct := namesDistinct_empty.run hops dom

/-- With sorted attributes the markup of a tree does not tell in which order they are stored: it is the same
for all trees that differ in this order only (and for a text alone if what is around it has the same tag).
Edge by edge it is that with stored attributes, but for the start tags, in which the attributes stand in the
ascending order of their names. All this holds of whatever a run leads to, and two ways to the same links, the
same nodes and the same values of attributes, set in whatever order, lead to the same sorted markup. -/
theorem sorted_markup_canonical (d : Document) (h : d.WellFormed) (hnames : d.NamesDistinct) (n : NodeId)
    (guarded : Bool) :
    let stored : RenderOptions := { sortAttributes := false, escapeScriptEnd := guarded }
    let sorted : RenderOptions := { sortAttributes := true, escapeScriptEnd := guarded }
    (∀ (other : Document) (m : NodeId), other.WellFormed → (d.treeAt n).isReordering (other.treeAt m) →
      (∀ data, d.kind? n = some (.text data) → other.parentTag? m = d.parentTag? n) →
      other.outerMarkup m sorted = d.outerMarkup n sorted) ∧
    d.outerMarkup n stored = String.join ((d.edges n).map (d.edgeMarkup stored)) ∧
    d.outerMarkup n sorted = String.join ((d.edges n).map (d.edgeMarkup sorted)) ∧
    (∀ m e, d.kind? m = some (.element e) → ∃ attributes : Entries String,
      attributes.Perm e.attributes ∧ attributes.Ascending ∧
        d.edgeMarkup stored (.enter m) = Render.tagWith e.tag e.attributes ∧
        d.edgeMarkup sorted (.enter m) = Render.tagWith e.tag attributes) ∧
    (∀ m, ¬ d.isElement m → d.edgeMarkup sorted (.enter m) = d.edgeMarkup stored (.enter m)) ∧
    (∀ m, d.edgeMarkup sorted (.leave m) = d.edgeMarkup stored (.leave m)) ∧
    ∀ (ops : List Operation) (dom : DomId), ({} : Workspace).Admits ops → (∀ op ∈ ops, op.NamesDistinct) →
      let reached := (({} : Workspace).run ops).document dom
      reached.WellFormed ∧ reached.NamesDistinct ∧
        (reached.fresh = d.fresh → (∀ m, reached.children m = d.children m) →
          (∀ m, (reached.kind? m).map (·.withoutAttributes) = (d.kind? m).map (·.withoutAttributes)) →
          (∀ m name, reached.attribute? m name = d.attribute? m name) →
          reached.outerMarkup n sorted = d.outerMarkup n sorted) := by
  intro stored sorted
  refine ⟨fun other m hother hsame htext => ?_, Document.renderEdges_eq_join _, Document.renderEdges_eq_join _,
    fun m e hkind => ?_, fun m hm => Document.edgeMarkup_enter_of_not_isElement hm guarded, fun m => rfl,
    fun ops dom hops hdistinct => ?_⟩
  · exact h.outerMarkup_of_isReordering hother hnames rfl hsame htext
  · exact ⟨Render.attributes sorted e, Render.attributes_perm sorted e,
      Render.ascending_attributes (hnames m _ hkind) rfl, Document.edgeMarkup_enter_element hkind,
      Document.edgeMarkup_enter_element hkind⟩
  · intro reached
    have hreached : reached.WellFormed := ((sound_empty.run hops).document dom).toWellFormed
    have hreachedNames : reached.NamesDistinct := namesDistinct_run ops hdistinct dom
    exact ⟨hreached, hreachedNames, fun hsize hchildren hkinds hvalues =>
      h.outerMarkup_of_attribute? hreached hnames hreachedNames rfl hsize hchildren hkinds hvalues n⟩

/-- The attributes of one element, set in either order; in the run one value is set again and a third attribute
is taken away. -/
theorem sorted_markup_canonical_paragraph :
    let bare : Document := { slots := #[
      some { kind := .element { tag := "div" }, children := [1, 2] },
      some { kind := .element { tag := "p" }, parent := some 0 },
      some { kind := .text "<", parent := some 0 }] }
    let d := (bare.setAttribute 1 "id" "x").setAttribute 1 "class" "y"
    let edit (edit : ElementEdit) : Operation := .change 0 (.editElement 1 edit)
    let ops : List Operation := [
      .change 0 (.create (.element { tag := "div" }) .html),
      .change 0 (.create (.element { tag := "p" }) .html),
      .change 0 (.create (.text "<") .html),
      .change 0 (.move (.lastIn 0) 1),
      .change 0 (.move (.lastIn 0) 2),
      edit (.setAttribute "class" "z"),
      edit (.setAttribute "a" ""),
      edit (.setAttribute "id" "x"),
      edit (.removeAttribute "a"),
      edit (.setAttribute "class" "y")]
    let other := (({} : Workspace).run ops).document 0
    let sorted : RenderOptions := { sortAttributes := true }
    d.WellFormed ∧ d.NamesDistinct ∧ ({} : Workspace).Admits ops ∧ (∀ op ∈ ops, op.NamesDistinct) ∧
      other.WellFormed ∧ (d.treeAt 0).isReordering (other.treeAt 0) ∧
      d.outerMarkup 0 = "<div><p id=\"x\" class=\"y\"></p>&lt;</div>" ∧
      other.outerMarkup 0 = "<div><p class=\"y\" id=\"x\"></p>&lt;</div>" ∧
      other.outerMarkup 0 sorted = d.outerMarkup 0 sorted ∧
      d.edgeMarkup sorted (.enter 1) = "<p class=\"y\" id=\"x\">" := by
  intro bare d edit ops other sorted
  have h : d.WellFormed := by decide +kernel
  have hnames : d.NamesDistinct := by decide +kernel
  have hops : ({} : Workspace).Admits ops := by decide +kernel
  have hdistinct : ∀ op ∈ ops, op.NamesDistinct := by
    simp [ops, edit, Operation.NamesDistinct, Change.NamesDistinct, Kind.NamesDistinct, Entries.Distinct]
  have hsame : (d.treeAt 0).isReordering (other.treeAt 0) := by decide +kernel
  obtain ⟨hcanonical, -, -, htags, -, -, hruns⟩ := sorted_markup_canonical d h hnames 0 true
  have hother := (hruns ops 0 hops hdistinct).1
  have htext : ∀ data, d.kind? 0 = some (.text data) → other.parentTag? 0 = d.parentTag? 0 := by
    intro data hdata
    cases hdata
  refine ⟨h, hnames, hops, hdistinct, hother, hsame, by decide +kernel, by decide +kernel,
    hcanonical other 0 hother hsame htext, ?_⟩
  obtain ⟨attributes, hperm, hascending, -, hmarkup⟩ :=
    htags 1 { tag := "p", attributes := [("id", "x"), ("class", "y")] } rfl
  have hattributes : Entries.Ascending [("class", "y"), ("id", "x")] := by decide +kernel
  rw [hmarkup, hattributes.eq_of_perm hascending (hperm.trans (.swap _ _ []))]
  decide +kernel

end Workspace
end DomQuery
