import DomQuery.Proofs.Document.WellFormed

/-!
What an edit of one slot leaves of the views of a document: of the data of a node, which are its kind
and its namespace, and of its links.
-/
namespace DomQuery.Document
variable {d d' d'' : Document} {n m p q : NodeId} {node : Node}

/-- What a node is, wherever it stands. -/
def data? (d : Document) (n : NodeId) : Option (Kind × Namespace) :=
  (d.node? n).map fun node => (node.kind, node.ns)

theorem kind?_eq_data? : d.kind? n = (d.data? n).map (·.1) := by
  rw [kind?, data?, Option.map_map]
  rfl

theorem kind?_congr (h : d'.data? n = d.data? n) : d'.kind? n = d.kind? n := by
  rw [kind?_eq_data?, kind?_eq_data?, h]

theorem isAllocated_iff : d.isAllocated n ↔ ∃ x, d.data? n = some x := by
  rw [isAllocated, data?, ← Option.isSome_iff_exists, Option.isSome_map]

theorem node?_eq_iff_views : d'.node? n = d.node? n ↔
    d'.data? n = d.data? n ∧ d'.parent? n = d.parent? n ∧ d'.children n = d.children n := by
  constructor
  · intro hsame
    simp only [data?, parent?, children, hsame, and_self]
  · rintro ⟨hdata, hparent, hchildren⟩
    rw [data?, data?] at hdata
    rw [parent?, parent?] at hparent
    rw [children, children] at hchildren
    cases hnode : d.node? n with
    | none => simpa [hnode] using hdata
    | some node =>
      rw [hnode] at hdata hparent hchildren
      obtain ⟨node', hnode', heq⟩ := Option.map_eq_some_iff.1 hdata
      rw [hnode'] at hparent hchildren ⊢
      obtain ⟨kind, ns, parent, children⟩ := node
      obtain ⟨kind', ns', parent', children'⟩ := node'
      simp_all

theorem isLeaf_congr (h : d'.data? n = d.data? n) : d'.isLeaf n = d.isLeaf n := by
  rw [isLeaf, isLeaf, kind?_eq_data?, kind?_eq_data?, h]

theorem isFragment_congr (h : d'.data? n = d.data? n) : d'.isFragment n = d.isFragment n := by
  rw [isFragment, isFragment, kind?_eq_data?, kind?_eq_data?, h]

theorem isElement_congr (h : d'.data? n = d.data? n) : d'.isElement n = d.isElement n := by
  rw [isElement, isElement, element?, element?, kind?_eq_data?, kind?_eq_data?, h]

theorem isAllocated_congr (h : d'.data? n = d.data? n) : d'.isAllocated n ↔ d.isAllocated n := by
  rw [isAllocated_iff, isAllocated_iff, h]

theorem lt_fresh (h : d.isAllocated n) : n < d.fresh := by
  obtain ⟨node, hnode⟩ := Option.isSome_iff_exists.1 h
  exact lt_size_of_node? hnode

theorem node?_of_le (h : d.fresh ≤ n) : d.node? n = none := by
  rw [node?, Array.getElem?_eq_none h]
  rfl

theorem isAllocated_of_parent? (h : d.parent? n = some p) : d.isAllocated n := by
  obtain ⟨node, hnode, -⟩ := Option.bind_eq_some_iff.1 h
  rw [isAllocated, hnode]
  rfl

theorem isAllocated_of_mem_children (h : n ∈ d.children p) : d.isAllocated p := by
  rw [isAllocated]
  cases hp : d.node? p with
  | none => simp [children, hp] at h
  | some node => rfl

theorem isAllocated_of_kind? {kind : Kind} (h : d.kind? n = some kind) : d.isAllocated n := by
  rw [isAllocated]
  cases hn : d.node? n with
  | none => simp [kind?, hn] at h
  | some node => rfl

theorem isAllocated_of_isLeaf (h : d.isLeaf n) : d.isAllocated n := by
  rw [isAllocated]
  cases hn : d.node? n with
  | none => simp [isLeaf, kind?, hn] at h
  | some node => rfl

theorem isAllocated_of_isFragment (h : d.isFragment n) : d.isAllocated n := by
  rw [isAllocated]
  cases hn : d.node? n with
  | none => simp [isFragment, kind?, hn] at h
  | some node => rfl

theorem isAllocated_of_isElement (h : d.isElement n) : d.isAllocated n := by
  rw [isAllocated]
  cases hn : d.node? n with
  | none => simp [isElement, element?, kind?, hn] at h
  | some node => rfl

theorem not_isLeaf (htext : ∀ data, d.kind? n ≠ some (.text data))
    (hcomment : ∀ data, d.kind? n ≠ some (.comment data)) : ¬ d.isLeaf n := by
  rw [isLeaf]
  cases hkind : d.kind? n with
  | none => exact Bool.false_ne_true
  | some kind =>
    cases kind with
    | text data => exact absurd hkind (htext data)
    | comment data => exact absurd hkind (hcomment data)
    | fragment => exact Bool.false_ne_true
    | element e => exact Bool.false_ne_true

theorem not_isLeaf_of_isFragment (h : d.isFragment n) : ¬ d.isLeaf n := by
  refine not_isLeaf (fun data hkind => ?_) fun data hkind => ?_
  · rw [isFragment, hkind] at h
    cases h
  · rw [isFragment, hkind] at h
    cases h

theorem not_isLeaf_of_isElement (h : d.isElement n) : ¬ d.isLeaf n := by
  refine not_isLeaf (fun data hkind => ?_) fun data hkind => ?_
  · simp [isElement, element?, hkind, Kind.element?] at h
  · simp [isElement, element?, hkind, Kind.element?] at h

theorem not_isFragment_of_isElement (h : d.isElement n) : ¬ d.isFragment n := by
  rw [isFragment]
  cases hkind : d.kind? n with
  | none => exact Bool.false_ne_true
  | some kind => cases kind <;> simp_all [isElement, element?, Kind.element?, Kind.isFragment]

theorem WellFormed.isAllocated_parent (h : d.WellFormed) (hp : d.parent? n = some p) :
    d.isAllocated p := isAllocated_of_mem_children (h.parent?_eq_some_iff.1 hp)

theorem WellFormed.isAllocated_child (h : d.WellFormed) (hn : n ∈ d.children p) :
    d.isAllocated n := isAllocated_of_parent? (h.parent?_eq_some_iff.2 hn)

theorem WellFormed.not_isLeaf_parent (h : d.WellFormed) (hp : d.parent? n = some p) : ¬ d.isLeaf p := by
  intro hleaf
  have hmem := h.parent?_eq_some_iff.1 hp
  rw [h.children_of_isLeaf hleaf] at hmem
  cases hmem

theorem LiesIn.isAllocated (hn : d.LiesIn n p) (hp : d.isAllocated p) : d.isAllocated n := by
  cases hn with
  | inl heq => exact heq ▸ hp
  | inr hn =>
    obtain ⟨q, hq⟩ := exists_parent?_of_isWithin hn
    exact isAllocated_of_parent? hq

/-! One slot. -/

theorem node?_add (d : Document) (node : Node) (n : NodeId) :
    (d.add node).node? n = if n = d.fresh then some node else d.node? n := by
  rw [node?, node?, add, fresh, Array.getElem?_push]
  split <;> rfl

theorem node?_modify (d : Document) (n : NodeId) (f : Node → Node) (m : NodeId) :
    (d.modify n f).node? m = if m = n then (d.node? n).map f else d.node? m := by
  rw [node?, node?, node?, modify, Array.getElem?_modify]
  by_cases h : m = n
  · subst h
    rw [if_pos rfl, if_pos rfl]
    rcases d.slots[m]? with - | - | node <;> rfl
  · rw [if_neg fun he => h he.symm, if_neg h]

theorem modify_eq_self {f : Node → Node} (h : ∀ node, d.node? n = some node → f node = node) :
    d.modify n f = d := by
  have hslots : d.slots.modify n (Option.map f) = d.slots := by
    refine Array.ext_getElem? fun m => ?_
    rw [Array.getElem?_modify]
    split
    · rename_i heq
      subst heq
      rw [node?] at h
      rcases hslot : d.slots[n]? with - | - | node
      · rfl
      · rfl
      · simp [h node (by simp [hslot])]
    · rfl
  rw [modify, hslots]

theorem node?_free (d : Document) (n m : NodeId) :
    (d.free n).node? m = if m = n then none else d.node? m := by
  rw [node?, node?, free, Array.getElem?_modify]
  by_cases h : m = n
  · subst h
    rw [if_pos rfl, if_pos rfl]
    rcases d.slots[m]? with - | - | node <;> rfl
  · rw [if_neg fun he => h he.symm, if_neg h]

@[simp]
theorem fresh_modify (d : Document) (n : NodeId) (f : Node → Node) :
    (d.modify n f).fresh = d.fresh := Array.size_modify

@[simp]
theorem fresh_free (d : Document) (n : NodeId) : (d.free n).fresh = d.fresh := Array.size_modify

@[simp]
theorem fresh_add (d : Document) (node : Node) : (d.add node).fresh = d.fresh + 1 :=
  Array.size_push ..

theorem isAllocated_modify {f : Node → Node} :
    (d.modify n f).isAllocated m = d.isAllocated m := by
  rw [isAllocated, isAllocated, node?_modify]
  split
  · rename_i h
    rw [h, Option.isSome_map]
  · rfl

/-! The views of a node. -/

theorem map_node?_modify {α : Type} {view : Node → α} {f : Node → Node}
    (hf : ∀ node, view (f node) = view node) :
    ((d.modify n f).node? m).map view = (d.node? m).map view := by
  rw [node?_modify]
  split
  · rename_i h
    subst h
    rw [Option.map_map]
    congr 1
    funext node
    exact hf node
  · rfl

theorem data?_modify {f : Node → Node} (hf : ∀ node, (f node).kind = node.kind ∧
    (f node).ns = node.ns) : (d.modify n f).data? m = d.data? m :=
  map_node?_modify fun node => Prod.ext (hf node).1 (hf node).2

theorem parent?_modify {f : Node → Node} (hf : ∀ node, (f node).parent = node.parent) :
    (d.modify n f).parent? m = d.parent? m := by
  have hview (x : Option Node) : x.bind (·.parent) = (x.map (·.parent)).bind id := by
    rw [Option.bind_map]
    rfl
  rw [parent?, parent?, hview, hview, map_node?_modify hf]

theorem children_modify {f : Node → Node} (hf : ∀ node, (f node).children = node.children) :
    (d.modify n f).children m = d.children m := by
  rw [children, children, map_node?_modify hf]

theorem ns_modify {f : Node → Node} (hf : ∀ node, (f node).ns = node.ns) :
    (d.modify n f).ns m = d.ns m := by
  rw [ns, ns, map_node?_modify hf]

theorem modifyElement_eq_self {f : Element → Element} (h : ∀ e, d.element? n = some e → f e = e) :
    d.modifyElement n f = d := by
  refine modify_eq_self fun node hnode => ?_
  cases hkind : node.kind with
  | element e =>
    have he : d.element? n = some e := by simp [element?, kind?, hnode, hkind, Kind.element?]
    simp only [h e he, ← hkind]
  | fragment | text _ | comment _ => rfl

theorem element?_modifyElement (d : Document) (n : NodeId) (f : Element → Element) (m : NodeId) :
    (d.modifyElement n f).element? m = if m = n then (d.element? n).map f else d.element? m := by
  rw [element?, kind?, modifyElement, node?_modify]
  split
  · rw [element?, kind?]
    cases d.node? n with
    | none => rfl
    | some node =>
      rcases node with ⟨_ | _ | _ | _, _, _, _⟩ <;> rfl
  · rfl

theorem parent?_setParent (hn : d.isAllocated n) (parent : Option NodeId) :
    (d.modify n fun node => { node with parent }).parent? m =
      if m = n then parent else d.parent? m := by
  obtain ⟨node, hnode⟩ := Option.isSome_iff_exists.1 hn
  rw [parent?, parent?, node?_modify, hnode]
  split <;> rfl

theorem children_modify_self {f : Node → Node} {g : List NodeId → List NodeId}
    (hn : d.isAllocated n) (hf : ∀ node, (f node).children = g node.children) :
    (d.modify n f).children m = if m = n then g (d.children n) else d.children m := by
  obtain ⟨node, hnode⟩ := Option.isSome_iff_exists.1 hn
  rw [children, children, children, node?_modify, hnode]
  split
  · exact hf node
  · rfl

/-! Documents that have all nodes of another one. -/

def Keeps (d d' : Document) : Prop := ∀ n x, d.data? n = some x → d'.data? n = some x

theorem Keeps.isAllocated (h : d.Keeps d') (hn : d.isAllocated n) : d'.isAllocated n := by
  obtain ⟨x, hx⟩ := isAllocated_iff.1 hn
  exact isAllocated_iff.2 ⟨x, h n x hx⟩

theorem Keeps.data? (h : d.Keeps d') (hn : d.isAllocated n) : d'.data? n = d.data? n := by
  obtain ⟨x, hx⟩ := isAllocated_iff.1 hn
  rw [h n x hx, hx]

/-- The slots are the same up to links, and there may be more of them. -/
structure Extends (d d' : Document) : Prop where
  data? : ∀ n < d.fresh, d'.data? n = d.data? n
  fresh_le : d.fresh ≤ d'.fresh
  roots : d'.roots = d.roots

theorem Extends.refl (d : Document) : d.Extends d := ⟨fun _ _ => rfl, Nat.le_refl _, rfl⟩

theorem Extends.trans (h : d.Extends d') (h' : d'.Extends d'') : d.Extends d'' where
  data? n hn := (h'.data? n (Nat.lt_of_lt_of_le hn h.fresh_le)).trans (h.data? n hn)
  fresh_le := Nat.le_trans h.fresh_le h'.fresh_le
  roots := h'.roots.trans h.roots

theorem Extends.keeps (h : d.Extends d') : d.Keeps d' := by
  intro n x hx
  rw [h.data? n (lt_fresh (isAllocated_iff.2 ⟨x, hx⟩)), hx]

theorem Extends.isAllocated (h : d.Extends d') (hn : d.isAllocated n) : d'.isAllocated n :=
  h.keeps.isAllocated hn

theorem Extends.isLeaf_iff (h : d.Extends d') (hn : d.isAllocated n) :
    d'.isLeaf n ↔ d.isLeaf n := by
  rw [isLeaf_congr (h.data? n (lt_fresh hn))]

theorem WellFormed.of_same_links (h : d.WellFormed) (hparent : ∀ m, d'.parent? m = d.parent? m)
    (hchildren : ∀ m, d'.children m = d.children m)
    (hleaf : ∀ m, d'.isLeaf m → d.children m = []) : d'.WellFormed where
  parent?_eq_some_iff {m p} := by
    rw [hparent, hchildren]
    exact h.parent?_eq_some_iff
  nodup_children p := by
    rw [hchildren]
    exact h.nodup_children p
  not_isWithin_self m := by
    have hsame : d'.parent? = d.parent? := funext hparent
    rw [isWithin_iff, hsame, ← isWithin_iff]
    exact h.not_isWithin_self m
  children_of_isLeaf {m} hm := by
    rw [hchildren]
    exact hleaf m hm

theorem WellFormed.modify (h : d.WellFormed) {f : Node → Node}
    (hparent : ∀ node, (f node).parent = node.parent)
    (hchildren : ∀ node, (f node).children = node.children)
    (hleaf : ∀ node, d.node? n = some node → (f node).kind.isLeaf → d.children n = []) :
    (d.modify n f).WellFormed := by
  refine h.of_same_links (fun m => parent?_modify hparent) (fun m => children_modify hchildren)
    fun m hm => ?_
  rw [isLeaf, kind?, node?_modify] at hm
  split at hm
  · rename_i heq
    cases hnode : d.node? n with
    | none => simp [hnode] at hm
    | some node =>
      rw [heq]
      exact hleaf node hnode (by simpa [hnode] using hm)
  · exact h.children_of_isLeaf hm

end DomQuery.Document
