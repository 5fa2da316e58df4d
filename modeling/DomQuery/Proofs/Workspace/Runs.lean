import DomQuery.Proofs.Document.OrderedForest
import DomQuery.Proofs.Workspace.Evolution

/-!
Runs of operations. Who calls an operation names documents at hand and nodes of theirs, as an earlier
answer gave them. No such operation takes a node away, and whatever a run leads to are ordered forests.
-/
namespace DomQuery
variable {ws ws' : Workspace} {dom : DomId} {c c' : Collection} {op : Operation}

/-! Changes around the nodes of a collection. -/

namespace Rework

def Admissible (ws : Workspace) (c : Collection) : Rework → Prop
  | .insert content _ => ws.HoldsContent c.dom content
  | .wrap content => ws.HoldsContent c.dom content
  | .wrapAll content => ws.HoldsContent c.dom content
  | .wrapInner content => ws.HoldsContent c.dom content
  | _ => True

instance (ws : Workspace) (c : Collection) : (rework : Rework) → Decidable (rework.Admissible ws c)
  | .insert content _ => inferInstanceAs (Decidable (ws.HoldsContent c.dom content))
  | .wrap content => inferInstanceAs (Decidable (ws.HoldsContent c.dom content))
  | .wrapAll content => inferInstanceAs (Decidable (ws.HoldsContent c.dom content))
  | .wrapInner content => inferInstanceAs (Decidable (ws.HoldsContent c.dom content))
  | .remove _ => inferInstanceAs (Decidable True)
  | .empty => inferInstanceAs (Decidable True)
  | .setText _ => inferInstanceAs (Decidable True)
  | .setMarkup _ => inferInstanceAs (Decidable True)
  | .setAttribute _ _ => inferInstanceAs (Decidable True)
  | .removeAttribute _ => inferInstanceAs (Decidable True)
  | .setProperty _ _ => inferInstanceAs (Decidable True)
  | .addClass _ => inferInstanceAs (Decidable True)
  | .removeClass _ => inferInstanceAs (Decidable True)
  | .toggleClass _ _ => inferInstanceAs (Decidable True)

/-- The nodes whose data a change is for: a new text is the data of texts and comments, and stands
below any other node. -/
def Edits (d : Document) (c : Collection) (n : NodeId) : Rework → Prop
  | .setText _ => n ∈ c.nodes ∧ d.isLeaf n
  | .setAttribute _ _ => n ∈ c.nodes
  | .removeAttribute _ => n ∈ c.nodes
  | .setProperty _ _ => n ∈ c.nodes
  | .addClass _ => n ∈ c.nodes
  | .removeClass _ => n ∈ c.nodes
  | .toggleClass _ _ => n ∈ c.nodes
  | _ => False

end Rework

namespace Document
variable {d : Document} {ns : List NodeId}

theorem Sound.evolves_editElements (h : d.Sound) (f : Element → Element) :
    d.Evolves (· ∈ ns) (ns.foldl (fun d n => d.modifyElement n f) d) :=
  h.evolves_foldl fun hd' _ n hn => (hd'.evolves_modifyElement n f).mono fun _ _ heq => heq ▸ hn

theorem Sound.evolves_setTexts (h : d.Sound) (hns : ∀ n ∈ ns, d.isAllocated n) (text : String) :
    d.Evolves (fun n => n ∈ ns ∧ d.isLeaf n) (ns.foldl (fun d n => d.setTextContent n text) d) := by
  refine h.evolves_foldl fun {d'} hd' hevolves n hn => ?_
  refine (hd'.evolves_setTextContent (hevolves.isAllocated n (hns n hn)) text).mono fun m _ hm => ?_
  obtain ⟨rfl, hleaf⟩ := hm
  -- a text or comment here was one from the start
  by_contra hnot
  rw [isLeaf_congr (hevolves.data? m (hns m hn) hnot)] at hleaf
  exact hnot ⟨hn, hleaf⟩

end Document

namespace Workspace

theorem Sound.evolves_setMarkup (h : ws.Sound) (hc : ws.Holds c.toSelection) (markup : String)
    {E : DomId → NodeId → Prop} : ws.Evolves E (ws.setMarkup c markup) := by
  rw [setMarkup]
  refine h.evolves_update hc.1 ?_
  dsimp only
  have hd := h.document c.dom
  have hbare : (ws.document c.dom).Evolves (E c.dom)
      ((c.nodes.filter (ws.document c.dom).isElement).foldl Document.clearChildren
        (ws.document c.dom)) :=
    hd.evolves_foldl fun hd' _ n _ => hd'.evolves_clearChildren n
  obtain ⟨hadds, hscratch⟩ := hbare.sound.toWellFormed.parse markup
  refine hbare.trans (hbare.sound.evolves_distribute_markup hadds hscratch fun t ht => ?_)
  exact hbare.isAllocated t (hc.2 t (List.mem_of_mem_filter ht))

theorem Sound.evolves_rework (h : ws.Sound) (hc : ws.HoldsChain c) {rework : Rework}
    (hadmissible : rework.Admissible ws c) (hrun : rework.run ws c = .ok ws') :
    ws.Evolves (fun dom n => dom = c.dom ∧ rework.Edits (ws.document dom) c n) ws' := by
  have hd := h.document c.dom
  have hedit (f : Element → Element) {E : DomId → NodeId → Prop} (hE : ∀ n ∈ c.nodes, E c.dom n) :
      ws.Evolves E (ws.update c.dom fun d => c.nodes.foldl (fun d n => d.modifyElement n f) d) :=
    h.evolves_update hc.1.1 ((hd.evolves_editElements f).mono fun n _ hn => hE n hn)
  cases rework with
  | insert content place =>
    obtain rfl := Except.ok.inj hrun
    exact h.evolves_insert hc.1 hadmissible place
  | wrap content =>
    obtain rfl := Except.ok.inj hrun
    exact h.evolves_wrap hc.1 hadmissible
  | wrapAll content =>
    obtain rfl := Except.ok.inj hrun
    exact h.evolves_wrapAll hc.1 hadmissible
  | wrapInner content =>
    obtain rfl := Except.ok.inj hrun
    exact h.evolves_wrapInner hc.1 hadmissible
  | remove filter =>
    obtain ⟨filter, -, hrun⟩ := bind_eq_ok.1 hrun
    obtain rfl := Except.ok.inj hrun
    refine h.evolves_update hc.1.1 ?_
    have hout := hd.evolves_of_extends (E := fun n => c.dom = c.dom ∧ False)
      (hd.toWellFormed.foldl_detach ((ws.document c.dom).applyFilter filter c.nodes))
      (Document.extends_foldl_detach _ _)
    exact hout.trans (hout.sound.evolves_unregister _)
  | empty =>
    obtain rfl := Except.ok.inj hrun
    exact h.evolves_update hc.1.1 (hd.evolves_foldl fun hd' _ n _ => hd'.evolves_clearChildren n)
  | setText text =>
    obtain rfl := Except.ok.inj hrun
    exact h.evolves_update hc.1.1 ((hd.evolves_setTexts hc.1.2 text).mono fun _ _ hn => ⟨rfl, hn⟩)
  | setMarkup markup =>
    obtain rfl := Except.ok.inj hrun
    exact h.evolves_setMarkup hc.1 markup
  | setAttribute name value =>
    obtain rfl := Except.ok.inj hrun
    exact hedit _ fun _ hn => ⟨rfl, hn⟩
  | removeAttribute name =>
    obtain rfl := Except.ok.inj hrun
    exact hedit _ fun _ hn => ⟨rfl, hn⟩
  | setProperty name value =>
    obtain rfl := Except.ok.inj hrun
    exact hedit _ fun _ hn => ⟨rfl, hn⟩
  | addClass names =>
    obtain rfl := Except.ok.inj hrun
    exact hedit _ fun _ hn => ⟨rfl, hn⟩
  | removeClass names =>
    obtain rfl := Except.ok.inj hrun
    exact hedit _ fun _ hn => ⟨rfl, hn⟩
  | toggleClass names wanted =>
    obtain rfl := Except.ok.inj hrun
    exact hedit _ fun _ hn => ⟨rfl, hn⟩

end Workspace

/-! Operations. -/

namespace Operation

/-- The documents that an operation names are at hand, and the nodes are nodes of theirs. -/
def Admissible (ws : Workspace) : Operation → Prop
  | .newDocument => True
  | .reset => True
  | .query _ => True
  | .parse dom _ => dom < ws.documents.size
  | .fragment dom _ => dom < ws.documents.size
  | .select dom _ => dom < ws.documents.size
  | .collect dom nodes => ws.Holds { dom, nodes }
  | .sort dom nodes => ws.Holds { dom, nodes }
  | .queryAll dom nodes _ _ => ws.Holds { dom, nodes }
  | .roots dom => dom < ws.documents.size
  | .liveRoots dom => dom < ws.documents.size
  | .look dom _ n => ws.Holds { dom, nodes := [n] }
  | .change dom step => dom < ws.documents.size ∧ step.Admissible (ws.document dom)
  | .importNode dom other n => dom < ws.documents.size ∧ ws.Holds { dom := other, nodes := [n] }
  | .derive c _ => ws.HoldsChain c
  | .add c target => ws.HoldsChain c ∧ ws.HoldsTarget c.dom target
  | .rework c step => ws.HoldsChain c ∧ step.Admissible ws c
  | .insertAt c target _ => ws.HoldsChain c ∧ ws.HoldsTarget c.dom target
  | .cloneNodes c => ws.HoldsChain c

instance (ws : Workspace) : (op : Operation) → Decidable (op.Admissible ws)
  | .newDocument => inferInstanceAs (Decidable True)
  | .reset => inferInstanceAs (Decidable True)
  | .query _ => inferInstanceAs (Decidable True)
  | .parse dom _ => inferInstanceAs (Decidable (dom < ws.documents.size))
  | .fragment dom _ => inferInstanceAs (Decidable (dom < ws.documents.size))
  | .select dom _ => inferInstanceAs (Decidable (dom < ws.documents.size))
  | .collect dom nodes => inferInstanceAs (Decidable (ws.Holds { dom, nodes }))
  | .sort dom nodes => inferInstanceAs (Decidable (ws.Holds { dom, nodes }))
  | .queryAll dom nodes _ _ => inferInstanceAs (Decidable (ws.Holds { dom, nodes }))
  | .roots dom => inferInstanceAs (Decidable (dom < ws.documents.size))
  | .liveRoots dom => inferInstanceAs (Decidable (dom < ws.documents.size))
  | .look dom _ n => inferInstanceAs (Decidable (ws.Holds { dom, nodes := [n] }))
  | .change _ _ => inferInstanceAs (Decidable (_ ∧ _))
  | .importNode _ _ _ => inferInstanceAs (Decidable (_ ∧ _))
  | .derive c _ => inferInstanceAs (Decidable (ws.HoldsChain c))
  | .add _ _ => inferInstanceAs (Decidable (_ ∧ _))
  | .rework _ _ => inferInstanceAs (Decidable (_ ∧ _))
  | .insertAt _ _ _ => inferInstanceAs (Decidable (_ ∧ _))
  | .cloneNodes c => inferInstanceAs (Decidable (ws.HoldsChain c))

def Edits (ws : Workspace) (dom : DomId) (n : NodeId) : Operation → Prop
  | .change dom' step => dom = dom' ∧ step.Edits (ws.document dom) n
  | .rework c step => dom = c.dom ∧ step.Edits (ws.document dom) c n
  | _ => False

end Operation

namespace Workspace

theorem Sound.evolves_parseForest (h : ws.Sound) (hdom : dom < ws.documents.size) (markup : String)
    {E : DomId → NodeId → Prop} : ws.Evolves E (ws.parseForest dom markup).1 ∧
      (ws.parseForest dom markup).1.Holds { dom, nodes := (ws.parseForest dom markup).2 } := by
  obtain ⟨hadds, -⟩ := (h.document dom).toWellFormed.parse markup
  simp only [parseForest]
  generalize (ws.document dom).parse markup = read at hadds
  exact h.evolves_setDocument hdom ((h.document dom).evolves_of_adds hadds)
    fun n hn => (hadds.of_mem n hn).2

theorem Sound.evolves_parse (h : ws.Sound) (hdom : dom < ws.documents.size) (markup : String)
    {E : DomId → NodeId → Prop} : ws.Evolves E (ws.parse dom markup).1 ∧
      (ws.parse dom markup).1.HoldsChain (ws.parse dom markup).2 := by
  obtain ⟨hread, hheld⟩ := h.evolves_parseForest (E := E) hdom markup
  simp only [parse]
  generalize ws.parseForest dom markup = read at hread hheld
  have hregister : read.1.Evolves E (read.1.update dom (·.register read.2)) :=
    hread.sound.evolves_update hheld.1 ((hread.sound.document dom).evolves_register hheld.2)
  exact ⟨hread.trans hregister, holdsChain_ofNodes (hheld.of_evolves hregister)⟩

theorem Sound.evolves_fragment (h : ws.Sound) (hdom : dom < ws.documents.size) (markup : String)
    {E : DomId → NodeId → Prop} : ws.Evolves E (ws.fragment dom markup).1 ∧
      (ws.fragment dom markup).1.HoldsChain (ws.fragment dom markup).2 := by
  obtain ⟨hread, hheld⟩ := h.evolves_parseForest (E := E) hdom markup
  simp only [fragment]
  exact ⟨hread, holdsChain_ofNodes hheld⟩

theorem Sound.evolves_query (h : ws.Sound) {input : String} (hrun : ws.query input = .ok (ws', c))
    {E : DomId → NodeId → Prop} : ws.Evolves E ws' ∧ ws'.HoldsChain c := by
  rw [query] at hrun
  split at hrun
  · have hparse := h.evolves_parse (E := E) h.current_lt
      (String.ofList (Text.trim input.toList))
    rw [Except.ok.injEq] at hrun
    rwa [hrun] at hparse
  · obtain ⟨found, hselect, heq⟩ := map_eq_ok.1 hrun
    obtain ⟨rfl, rfl⟩ := Prod.mk.inj heq
    exact ⟨h.evolves_self, (holdsChain_select h.current_lt hselect).1⟩

theorem Sound.evolves_newDocument (h : ws.Sound) {E : DomId → NodeId → Prop} :
    ws.Evolves E ws.newDocument.1 where
  size_le := by
    rw [newDocument, Array.size_push]
    exact Nat.le_succ _
  document dom := by
    rw [newDocument, document_push]
    exact (h.document dom).evolves_self
  current_lt := by
    rw [newDocument, Array.size_push]
    exact Nat.lt_succ_of_lt h.current_lt

theorem Sound.evolves_reset (h : ws.Sound) {E : DomId → NodeId → Prop} : ws.Evolves E ws.reset where
  size_le := (h.evolves_newDocument (E := E)).size_le
  document := (h.evolves_newDocument (E := E)).document
  current_lt := by
    rw [reset, newDocument, Array.size_push]
    exact Nat.lt_succ_self _

/-- Every operation keeps all nodes, and all that it gives out are nodes. -/
theorem Sound.perform (h : ws.Sound) (hop : op.Admissible ws)
    (hrun : ws.perform op = .ok (ws', c)) :
    ws.Evolves (fun dom n => op.Edits ws dom n) ws' ∧ ws'.HoldsChain c := by
  have hlook {d : DomId} {ns : List NodeId} (hdom : d < ws.documents.size)
      (hns : ∀ n ∈ ns, (ws.document d).isAllocated n) : ws.HoldsChain { dom := d, nodes := ns } :=
    ⟨⟨hdom, hns⟩, List.forall_mem_nil _⟩
  cases op with
  | newDocument =>
    obtain ⟨rfl, rfl⟩ := Prod.mk.inj (Except.ok.inj hrun)
    have hlt : ws.documents.size < (ws.documents.push {}).size := by simp
    exact ⟨h.evolves_newDocument, ⟨hlt, List.forall_mem_nil _⟩, List.forall_mem_nil _⟩
  | reset =>
    obtain ⟨rfl, rfl⟩ := Prod.mk.inj (Except.ok.inj hrun)
    exact ⟨h.evolves_reset, ⟨(h.evolves_reset (E := fun _ _ => False)).current_lt,
      List.forall_mem_nil _⟩, List.forall_mem_nil _⟩
  | query input => exact h.evolves_query (mapError_eq_ok.1 hrun)
  | parse dom markup =>
    have hparse := h.evolves_parse (E := fun d n => (Operation.parse dom markup).Edits ws d n) hop markup
    rw [Workspace.perform, Except.ok.injEq] at hrun
    rwa [hrun] at hparse
  | fragment dom markup =>
    have hread := h.evolves_fragment (E := fun d n => (Operation.fragment dom markup).Edits ws d n)
      hop markup
    rw [Workspace.perform, Except.ok.injEq] at hrun
    rwa [hrun] at hread
  | select dom selector =>
    obtain ⟨found, hselect, heq⟩ := map_eq_ok.1 (mapError_eq_ok.1 hrun)
    obtain ⟨rfl, rfl⟩ := Prod.mk.inj heq
    exact ⟨h.evolves_self, (holdsChain_select hop hselect).1⟩
  | collect dom nodes =>
    obtain ⟨rfl, rfl⟩ := Prod.mk.inj (Except.ok.inj hrun)
    exact ⟨h.evolves_self, holdsChain_ofNodes hop⟩
  | sort dom nodes =>
    obtain ⟨rfl, rfl⟩ := Prod.mk.inj (Except.ok.inj hrun)
    exact ⟨h.evolves_self, hlook hop.1 fun n hn => hop.2 n (Document.mem_sortByOrder.1 hn)⟩
  | queryAll dom nodes selector scope =>
    obtain ⟨rfl, rfl⟩ := Prod.mk.inj (Except.ok.inj hrun)
    exact ⟨h.evolves_self, hlook hop.1 fun n hn =>
      Document.isAllocated_of_isElement (Document.isElement_of_mem_query hn)⟩
  | roots dom =>
    obtain ⟨rfl, rfl⟩ := Prod.mk.inj (Except.ok.inj hrun)
    exact ⟨h.evolves_self, hlook hop (h.document dom).isAllocated_of_mem_roots⟩
  | liveRoots dom =>
    obtain ⟨rfl, rfl⟩ := Prod.mk.inj (Except.ok.inj hrun)
    exact ⟨h.evolves_self, hlook hop fun n hn =>
      (h.document dom).isAllocated_of_mem_roots n (List.mem_of_mem_filter hn)⟩
  | look dom axis n =>
    obtain ⟨rfl, rfl⟩ := Prod.mk.inj (Except.ok.inj hrun)
    exact ⟨h.evolves_self, hlook hop.1 fun m hm =>
      (h.document dom).toWellFormed.isAllocated_of_mem_axis hm⟩
  | change dom step =>
    obtain ⟨⟨d, ns⟩, hstep, heq⟩ := map_eq_ok.1 (mapError_eq_ok.1 hrun)
    obtain ⟨rfl, rfl⟩ := Prod.mk.inj heq
    obtain ⟨hevolves, hns⟩ := Change.evolves (h.document dom) hop.2 hstep
    have hws := h.evolves_setDocument (E := fun d n => (Operation.change dom step).Edits ws d n)
      hop.1 (hevolves.mono fun _ _ hn => ⟨rfl, hn⟩) hns
    exact ⟨hws.1, hws.2, List.forall_mem_nil _⟩
  | importNode dom other n =>
    have hadds := (h.document dom).toWellFormed.adds_importNode (h.document other).toWellFormed n
    obtain ⟨rfl, rfl⟩ := Prod.mk.inj (Except.ok.inj hrun)
    have hws := h.evolves_setDocument
      (E := fun d m => (Operation.importNode dom other n).Edits ws d m) hop.1
      ((h.document dom).evolves_of_adds hadds) fun m hm => (hadds.of_mem m hm).2
    exact ⟨hws.1, hws.2, List.forall_mem_nil _⟩
  | derive c step =>
    obtain ⟨found, hstep, heq⟩ := map_eq_ok.1 (mapError_eq_ok.1 hrun)
    obtain ⟨rfl, rfl⟩ := Prod.mk.inj heq
    exact ⟨h.evolves_self, hop.derived h hstep⟩
  | add c target =>
    obtain ⟨found, hadd, heq⟩ := map_eq_ok.1 (mapError_eq_ok.1 hrun)
    obtain ⟨rfl, rfl⟩ := Prod.mk.inj heq
    exact ⟨h.evolves_self, holdsChain_add hop.1 hop.2 hadd⟩
  | rework c step =>
    obtain ⟨after, hstep, heq⟩ := map_eq_ok.1 (mapError_eq_ok.1 hrun)
    obtain ⟨rfl, rfl⟩ := Prod.mk.inj heq
    have hws := h.evolves_rework hop.1 hop.2 hstep
    exact ⟨hws, hop.1.of_evolves hws⟩
  | insertAt c target place => exact h.evolves_insertAt hop.1 hop.2 (mapError_eq_ok.1 hrun)
  | cloneNodes c =>
    have hadds := (h.document c.dom).toWellFormed.adds_copyAll c.nodes
    obtain ⟨rfl, rfl⟩ := Prod.mk.inj (Except.ok.inj hrun)
    have hws := h.evolves_setDocument (E := fun d n => (Operation.cloneNodes c).Edits ws d n)
      hop.1.1 ((h.document c.dom).evolves_of_adds hadds) fun n hn => (hadds.of_mem n hn).2
    exact ⟨hws.1, (hop.of_evolves hws.1).deriveIn hws.2⟩

theorem Sound.after (h : ws.Sound) (hop : op.Admissible ws) :
    ws.Evolves (fun dom n => op.Edits ws dom n) (ws.after op) := by
  rw [Workspace.after]
  split
  · rename_i hrun
    exact (h.perform hop hrun).1
  · exact h.evolves_self

/-- Each operation of a run is called as it can be at its turn. -/
def Admits (ws : Workspace) : List Operation → Prop
  | [] => True
  | op :: ops => op.Admissible ws ∧ (ws.after op).Admits ops

def decidableAdmits : (ws : Workspace) → (ops : List Operation) → Decidable (ws.Admits ops)
  | _, [] => inferInstanceAs (Decidable True)
  | ws, op :: ops =>
    have := decidableAdmits (ws.after op) ops
    inferInstanceAs (Decidable (op.Admissible ws ∧ (ws.after op).Admits ops))

instance (ws : Workspace) (ops : List Operation) : Decidable (ws.Admits ops) := decidableAdmits ws ops

theorem Sound.run {ops : List Operation} (h : ws.Sound) (hops : ws.Admits ops) :
    (ws.run ops).Sound := by
  induction ops generalizing ws with
  | nil => exact h
  | cons op ops ih => exact ih (h.after hops.1).sound hops.2

theorem document_empty (dom : DomId) : ({} : Workspace).document dom = {} := by
  rw [document, Array.getD_eq_getD_getElem?]
  cases dom <;> rfl

theorem sound_empty : ({} : Workspace).Sound := by
  refine ⟨fun dom => ?_, Nat.zero_lt_one⟩
  have hempty : ({} : Document).WellFormed := by decide
  rw [document_empty]
  exact ⟨hempty, List.nodup_nil, List.forall_mem_nil _⟩

/-! What a run leads to, whichever operations failed. -/

/-- After any run from an empty document on, every document is an ordered forest. -/
theorem orderedForest_run (ops : List Operation) (hops : ({} : Workspace).Admits ops) (dom : DomId) :
    ((({} : Workspace).run ops).document dom).OrderedForest :=
  ((sound_empty.run hops).document dom).toWellFormed.orderedForest

/-- A text takes no child, so the second move fails; the wrapping makes a copy. -/
theorem orderedForest_run_wrap : ((({} : Workspace).run [
      .change 0 (.create (.element { tag := "p" }) .html),
      .change 0 (.create (.text "x") .html),
      .change 0 (.move (.lastIn 0) 1),
      .change 0 (.move (.lastIn 1) 0),
      .rework { dom := 0, nodes := [1] } (.wrap (.nodes [0]))]).document 0).OrderedForest :=
  orderedForest_run [
      .change 0 (.create (.element { tag := "p" }) .html),
      .change 0 (.create (.text "x") .html),
      .change 0 (.move (.lastIn 0) 1),
      .change 0 (.move (.lastIn 1) 0),
      .rework { dom := 0, nodes := [1] } (.wrap (.nodes [0]))]
    (by decide +kernel) 0

/-- What becomes of nodes in an operation. -/
structure KeepsNodes (ws : Workspace) (op : Operation) : Prop where
  isAllocated : ∀ dom n, (ws.document dom).isAllocated n →
    ((ws.after op).document dom).isAllocated n
  data?_eq : ∀ dom n, (ws.document dom).isAllocated n → ¬ op.Edits ws dom n →
    ((ws.after op).document dom).data? n = (ws.document dom).data? n
  /-- The caller can go on with what the operation answers. -/
  holds_answer : ∀ ws' c, ws.perform op = .ok (ws', c) → (ws.after op).HoldsChain c
  /-- No link leads to a freed node. -/
  isAllocated_of_link : ∀ dom n p, ((ws.after op).document dom).parent? n = some p ∨
    n ∈ ((ws.after op).document dom).children p →
      ((ws.after op).document dom).isAllocated n ∧ ((ws.after op).document dom).isAllocated p
  nodup_roots : ∀ dom, ((ws.after op).document dom).roots.Nodup
  isAllocated_of_mem_roots : ∀ dom, ∀ r ∈ ((ws.after op).document dom).roots,
    ((ws.after op).document dom).isAllocated r

/-- No operation frees a node that was there before it. -/
theorem keepsNodes_run (ops : List Operation) (hops : ({} : Workspace).Admits ops) (op : Operation)
    (hop : op.Admissible (({} : Workspace).run ops)) : (({} : Workspace).run ops).KeepsNodes op := by
  have h := sound_empty.run hops
  generalize ({} : Workspace).run ops = ws at h hop
  have hafter := h.after hop
  have hsound (dom : DomId) := hafter.sound.document dom
  refine ⟨fun dom => (hafter.document dom).isAllocated, fun dom => (hafter.document dom).data?,
    fun ws' c hrun => ?_, fun dom n p hlink => ?_, fun dom => (hsound dom).nodup_roots,
    fun dom => (hsound dom).isAllocated_of_mem_roots⟩
  · have hws : ws.after op = ws' := by rw [Workspace.after, hrun]
    rw [hws]
    exact (h.perform hop hrun).2
  · have hp := hlink.elim id (hsound dom).toWellFormed.parent?_eq_some_iff.2
    exact ⟨Document.isAllocated_of_parent? hp, (hsound dom).toWellFormed.isAllocated_parent hp⟩

/-- A text cannot be wrapped from inside: the wrapper that was made for it, node 2, is freed. -/
theorem keepsNodes_run_wrapInner :
    (({} : Workspace).run [.change 0 (.create (.element { tag := "p" }) .html),
      .change 0 (.create (.text "x") .html)]).KeepsNodes
        (.rework { dom := 0, nodes := [1] } (.wrapInner (.nodes [0]))) ∧
    2 < ((({} : Workspace).run [.change 0 (.create (.element { tag := "p" }) .html),
      .change 0 (.create (.text "x") .html),
      .rework { dom := 0, nodes := [1] } (.wrapInner (.nodes [0]))]).document 0).fresh ∧
    ((({} : Workspace).run [.change 0 (.create (.element { tag := "p" }) .html),
      .change 0 (.create (.text "x") .html),
      .rework { dom := 0, nodes := [1] } (.wrapInner (.nodes [0]))]).document 0).node? 2 = none :=
  ⟨keepsNodes_run [.change 0 (.create (.element { tag := "p" }) .html),
      .change 0 (.create (.text "x") .html)] (by decide +kernel)
      (.rework { dom := 0, nodes := [1] } (.wrapInner (.nodes [0]))) (by decide +kernel),
    by decide +kernel, by decide +kernel⟩

end Workspace
end DomQuery
