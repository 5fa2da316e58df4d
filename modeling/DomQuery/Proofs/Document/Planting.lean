import DomQuery.Document.Placement
import DomQuery.Proofs.Document.Growth

/-!
Planting a tree. All its nodes are new, and their links are those of the tree; so a copy of a node is
part of a well-formed document, in the document of the node or in another.
-/
namespace DomQuery

/-- The texts and comments of a tree are its leaves. -/
inductive Tree.Tidy : Tree → Prop
  | node {kind : Kind} {ns : Namespace} {children : List Tree} :
    (kind.isLeaf → children = []) → (∀ t ∈ children, Tidy t) → Tidy (.node kind ns children)

namespace Document
variable {d d' d'' other : Document} {n : NodeId} {parent : Option NodeId} {ns : List NodeId}

/-- The nodes `ns` are new ones below a parent that does not list them yet, and with all that is below
them they are all that is new. A parent is older than its children, so no links can make a circle. -/
structure Planted (d d' : Document) (parent : Option NodeId) (ns : List NodeId) : Prop where
  node? : ∀ m < d.fresh, d'.node? m = d.node? m
  fresh_le : d.fresh ≤ d'.fresh
  roots : d'.roots = d.roots
  nodup : ns.Nodup
  of_mem : ∀ m ∈ ns, d.fresh ≤ m ∧ m < d'.fresh ∧ d'.parent? m = parent
  isAllocated : ∀ m, d.fresh ≤ m → m < d'.fresh → d'.isAllocated m
  up : ∀ m, d.fresh ≤ m → m < d'.fresh → m ∈ ns ∨
    ∃ p, d.fresh ≤ p ∧ p < m ∧ d'.parent? m = some p ∧ m ∈ d'.children p
  down : ∀ p, d.fresh ≤ p → ∀ m ∈ d'.children p, p < m ∧ d'.parent? m = some p
  nodup_children : ∀ p, d.fresh ≤ p → (d'.children p).Nodup
  children_of_isLeaf : ∀ p, d.fresh ≤ p → d'.isLeaf p → d'.children p = []

namespace Planted

theorem nil (d : Document) (parent : Option NodeId) : d.Planted d parent [] where
  node? _ _ := rfl
  fresh_le := Nat.le_refl _
  roots := rfl
  nodup := List.nodup_nil
  of_mem := nofun
  isAllocated m hle hlt := absurd hlt (Nat.not_lt_of_le hle)
  up m hle hlt := absurd hlt (Nat.not_lt_of_le hle)
  down p hp := by simp [children, node?_of_le hp]
  nodup_children p hp := by simp [children, node?_of_le hp]
  children_of_isLeaf p hp := by simp [children, node?_of_le hp]

theorem append {ms : List NodeId} (h : d.Planted d' parent ns) (h' : d'.Planted d'' parent ms) :
    d.Planted d'' parent (ns ++ ms) := by
  have hparent {m : NodeId} (hm : m < d'.fresh) : d''.parent? m = d'.parent? m := by
    rw [parent?, parent?, h'.node? m hm]
  have hchildren {p : NodeId} (hp : p < d'.fresh) : d''.children p = d'.children p := by
    rw [children, children, h'.node? p hp]
  have hlater {m : NodeId} (hm : ¬ m < d'.fresh) : d'.fresh ≤ m := Nat.le_of_not_lt hm
  constructor
  case node? => exact fun m hm => (h'.node? m (hm.trans_le h.fresh_le)).trans (h.node? m hm)
  case fresh_le => exact h.fresh_le.trans h'.fresh_le
  case roots => exact h'.roots.trans h.roots
  case nodup =>
    refine List.nodup_append.2 ⟨h.nodup, h'.nodup, fun a ha b hb => Nat.ne_of_lt ?_⟩
    exact (h.of_mem a ha).2.1.trans_le (h'.of_mem b hb).1
  case of_mem =>
    intro m hm
    cases List.mem_append.1 hm with
    | inl hm =>
      obtain ⟨hle, hlt, hp⟩ := h.of_mem m hm
      exact ⟨hle, hlt.trans_le h'.fresh_le, (hparent hlt).trans hp⟩
    | inr hm =>
      obtain ⟨hle, hlt, hp⟩ := h'.of_mem m hm
      exact ⟨h.fresh_le.trans hle, hlt, hp⟩
  case isAllocated =>
    intro m hle hlt
    by_cases hm : m < d'.fresh
    · have hsame : d''.isAllocated m ↔ d'.isAllocated m :=
        isAllocated_congr (by rw [data?, data?, h'.node? m hm])
      exact hsame.2 (h.isAllocated m hle hm)
    · exact h'.isAllocated m (hlater hm) hlt
  case up =>
    intro m hle hlt
    by_cases hm : m < d'.fresh
    · refine (h.up m hle hm).imp (List.mem_append_left ms) ?_
      rintro ⟨p, hp, hpm, hmp, hmem⟩
      exact ⟨p, hp, hpm, (hparent hm).trans hmp, by rwa [hchildren (hpm.trans hm)]⟩
    · refine (h'.up m (hlater hm) hlt).imp (List.mem_append_right ns) ?_
      rintro ⟨p, hp, hrest⟩
      exact ⟨p, h.fresh_le.trans hp, hrest⟩
  case down =>
    intro p hle m hm
    by_cases hp : p < d'.fresh
    · rw [hchildren hp] at hm
      obtain ⟨hpm, hmp⟩ := h.down p hle m hm
      exact ⟨hpm, (hparent (lt_fresh (isAllocated_of_parent? hmp))).trans hmp⟩
    · exact h'.down p (hlater hp) m hm
  case nodup_children =>
    intro p hle
    by_cases hp : p < d'.fresh
    · rw [hchildren hp]
      exact h.nodup_children p hle
    · exact h'.nodup_children p (hlater hp)
  case children_of_isLeaf =>
    intro p hle hleaf
    by_cases hp : p < d'.fresh
    · rw [isLeaf_congr (d := d') (by rw [data?, data?, h'.node? p hp])] at hleaf
      rw [hchildren hp]
      exact h.children_of_isLeaf p hle hleaf
    · exact h'.children_of_isLeaf p (hlater hp) hleaf

theorem node {kind : Kind} {space : Namespace}
    (h : (d.add { kind, ns := space, parent }).Planted d' (some d.fresh) ns)
    (hleaf : kind.isLeaf → ns = []) :
    d.Planted (d'.modify d.fresh fun node => { node with children := ns }) parent [d.fresh] := by
  have hlt : d.fresh < (d.add { kind, ns := space, parent }).fresh := by simp
  have hroot : d'.node? d.fresh = some { kind, ns := space, parent } := by
    rw [h.node? _ hlt, node?_add, if_pos rfl]
  have hallocated : d'.isAllocated d.fresh := by
    rw [Document.isAllocated, hroot]
    rfl
  have hnode (m : NodeId) : (d'.modify d.fresh fun node => { node with children := ns }).node? m =
      if m = d.fresh then some { kind, ns := space, parent, children := ns } else d'.node? m := by
    rw [node?_modify, hroot]
    rfl
  have hparent (m : NodeId) :
      (d'.modify d.fresh fun node => { node with children := ns }).parent? m = d'.parent? m :=
    parent?_modify fun _ => rfl
  have hchildren (p : NodeId) :
      (d'.modify d.fresh fun node => { node with children := ns }).children p =
        if p = d.fresh then ns else d'.children p := by
    rw [Document.children, hnode]
    split <;> rfl
  have hbelow {m : NodeId} (hle : d.fresh ≤ m) (hm : m ≠ d.fresh) :
      (d.add { kind, ns := space, parent }).fresh ≤ m := by
    rw [fresh_add]
    exact Nat.lt_of_le_of_ne hle hm.symm
  constructor
  case node? =>
    intro m hm
    rw [hnode, if_neg (Nat.ne_of_lt hm), h.node? m (hm.trans hlt), node?_add,
      if_neg (Nat.ne_of_lt hm)]
  case fresh_le =>
    rw [fresh_modify]
    exact hlt.le.trans h.fresh_le
  case roots => exact h.roots
  case nodup => exact List.nodup_singleton d.fresh
  case of_mem =>
    intro m hm
    obtain rfl := List.mem_singleton.1 hm
    rw [fresh_modify, hparent, Document.parent?, hroot]
    exact ⟨Nat.le_refl _, hlt.trans_le h.fresh_le, rfl⟩
  case isAllocated =>
    intro m hle hm
    rw [isAllocated_modify]
    by_cases heq : m = d.fresh
    · rwa [heq]
    · exact h.isAllocated m (hbelow hle heq) (by rwa [fresh_modify] at hm)
  case up =>
    intro m hle hm
    by_cases heq : m = d.fresh
    · exact .inl (List.mem_singleton.2 heq)
    rw [fresh_modify] at hm
    right
    rcases h.up m (hbelow hle heq) hm with hmem | ⟨p, hp, hpm, hmp, hmem⟩
    · exact ⟨d.fresh, Nat.le_refl _, Nat.lt_of_le_of_ne hle (Ne.symm heq),
        (hparent m).trans (h.of_mem m hmem).2.2, by rwa [hchildren, if_pos rfl]⟩
    · have hne : p ≠ d.fresh := (hlt.trans_le hp).ne'
      exact ⟨p, hlt.le.trans hp, hpm, (hparent m).trans hmp, by rwa [hchildren, if_neg hne]⟩
  case down =>
    intro p hle m hm
    rw [hchildren] at hm
    rw [hparent]
    split at hm
    · rename_i heq
      subst heq
      obtain ⟨hge, -, hmp⟩ := h.of_mem m hm
      exact ⟨hlt.trans_le hge, hmp⟩
    · rename_i heq
      exact h.down p (hbelow hle heq) m hm
  case nodup_children =>
    intro p hle
    rw [hchildren]
    split
    · exact h.nodup
    · rename_i heq
      exact h.nodup_children p (hbelow hle heq)
  case children_of_isLeaf =>
    intro p hle hp
    rw [isLeaf, kind?, hnode] at hp
    rw [hchildren]
    split at hp
    · rename_i heq
      rw [if_pos heq]
      exact hleaf hp
    · rename_i heq
      rw [if_neg heq]
      exact h.children_of_isLeaf p (hbelow hle heq) hp

theorem grows (h : d.Planted d' none ns) (hd : d.WellFormed) : d.Grows d' where
  node? := h.node?
  fresh_le := h.fresh_le
  roots := h.roots
  apart m p hmp := by
    by_cases hm : m < d.fresh
    · rw [Document.parent?, h.node? m hm] at hmp
      have hp := lt_fresh (hd.isAllocated_parent hmp)
      exact iff_of_false (Nat.not_le_of_lt hm) (Nat.not_le_of_lt hp)
    · have hle := Nat.le_of_not_lt hm
      refine iff_of_true hle ?_
      rcases h.up m hle (lt_fresh (isAllocated_of_parent? hmp)) with hmem | ⟨q, hq, -, hmq, -⟩
      · rw [(h.of_mem m hmem).2.2] at hmp
        cases hmp
      · exact Option.some.inj (hmq.symm.trans hmp) ▸ hq

theorem exists_liesIn {m : NodeId} (h : d.Planted d' parent ns) (hle : d.fresh ≤ m)
    (hlt : m < d'.fresh) : ∃ root ∈ ns, d'.LiesIn m root := by
  induction m using Nat.strong_induction_on with
  | _ m ih =>
    rcases h.up m hle hlt with hmem | ⟨p, hp, hpm, hparent, -⟩
    · exact ⟨m, hmem, .inl rfl⟩
    · obtain ⟨root, hroot, hlies⟩ := ih p hpm hp (hpm.trans hlt)
      exact ⟨root, hroot, .trans (.inr (isWithin_of_parent? hparent)) hlies⟩

theorem wellFormed (h : d.Planted d' none ns) (hd : d.WellFormed) : d'.WellFormed := by
  have hup {m p : NodeId} (hle : d.fresh ≤ m) (hmp : d'.parent? m = some p) :
      p < m ∧ m ∈ d'.children p := by
    rcases h.up m hle (lt_fresh (isAllocated_of_parent? hmp)) with hmem | ⟨q, -, hqm, hmq, hmem⟩
    · rw [(h.of_mem m hmem).2.2] at hmp
      cases hmp
    · obtain rfl := Option.some.inj (hmq.symm.trans hmp)
      exact ⟨hqm, hmem⟩
  have hapart := (h.grows hd).apart
  refine hd.grow (h.grows hd) (fun m p hp => ?_) h.nodup_children (fun m hle hself => ?_)
    h.children_of_isLeaf
  · exact ⟨fun hmp => (hup ((hapart m p hmp).2 hp) hmp).2, fun hm => (h.down p hp m hm).2⟩
  · have hless {a b : NodeId} (hab : Relation.TransGen (Climb.Step d'.parent?) a b)
        (ha : d.fresh ≤ a) : b < a := by
      induction hab using Relation.TransGen.head_induction_on with
      | single hstep => exact (hup ha hstep).1
      | head hstep _ ih => exact (ih ((hapart _ _ hstep).1 ha)).trans (hup ha hstep).1
    exact Nat.lt_irrefl m (hless (isWithin_iff.1 hself) hle)

end Planted

mutual

theorem planted_plantUnder (d : Document) (parent : Option NodeId) :
    ∀ {tree : Tree}, tree.Tidy →
      d.Planted (d.plantUnder parent tree).1 parent [(d.plantUnder parent tree).2]
  | .node kind space children, .node hleaf hchildren => by
    have hbelow := planted_plantAllUnder (d.add { kind, ns := space, parent }) d.fresh hchildren
    rw [plantUnder]
    refine hbelow.node fun hkind => ?_
    rw [hleaf hkind, plantAllUnder]

theorem planted_plantAllUnder (d : Document) (parent : NodeId) :
    ∀ {trees : List Tree}, (∀ t ∈ trees, t.Tidy) →
      d.Planted (d.plantAllUnder parent trees).1 (some parent) (d.plantAllUnder parent trees).2
  | [], _ => by
    rw [plantAllUnder]
    exact .nil d (some parent)
  | tree :: trees, htidy => by
    have hfirst := planted_plantUnder d (some parent) (htidy tree List.mem_cons_self)
    have hrest := planted_plantAllUnder (d.plantUnder (some parent) tree).1 parent
      fun t ht => htidy t (List.mem_cons_of_mem tree ht)
    rw [plantAllUnder]
    exact hfirst.append hrest

end

theorem Planted.adds (h : d.Planted d' none ns) (hd : d.WellFormed) : d.Adds d' ns where
  grows := h.grows hd
  wellFormed := h.wellFormed hd
  of_mem n hn := by
    obtain ⟨hle, hlt, -⟩ := h.of_mem n hn
    exact ⟨hle, h.isAllocated n hle hlt⟩

theorem WellFormed.adds_plant (h : d.WellFormed) {tree : Tree} (ht : tree.Tidy) :
    d.Adds (d.plant tree).1 [(d.plant tree).2] := (planted_plantUnder d none ht).adds h

theorem WellFormed.adds_create (h : d.WellFormed) (kind : Kind) (space : Namespace) :
    d.Adds (d.create kind space).1 [(d.create kind space).2] := by
  have htidy : (Tree.node kind space []).Tidy := .node (fun _ => rfl) nofun
  have hadds := h.adds_plant htidy
  have hnode : (d.plant (.node kind space [])).1 = (d.create kind space).1 := by
    simp only [plant, plantUnder, plantAllUnder, create]
    refine congrArg (Document.mk · d.roots) (Array.ext (by simp [add]) fun i hi hi' => ?_)
    simp only [add, Array.getElem_modify, Array.getElem_push]
    grind [fresh]
  rwa [hnode, plant, plantUnder, plantAllUnder] at hadds

theorem WellFormed.tidy_treeWithin (h : d.WellFormed) (bound : Nat) (n : NodeId) :
    (d.treeWithin bound n).Tidy := by
  induction bound generalizing n with
  | zero => exact .node nofun nofun
  | succ bound ih =>
    refine .node (fun hleaf => ?_) fun t ht => ?_
    · have hn : d.isLeaf n := by
        rw [isLeaf]
        cases hkind : d.kind? n with
        | none => simp [hkind, Kind.isLeaf] at hleaf
        | some kind => simpa [hkind] using hleaf
      rw [h.children_of_isLeaf hn]
      rfl
    · obtain ⟨c, -, rfl⟩ := List.mem_map.1 ht
      exact ih c

theorem WellFormed.tidy_treeAt (h : d.WellFormed) (n : NodeId) : (d.treeAt n).Tidy :=
  h.tidy_treeWithin d.slots.size n

theorem WellFormed.adds_copy (h : d.WellFormed) (n : NodeId) (deep : Bool) :
    d.Adds (d.copy n deep).1 [(d.copy n deep).2] := by
  rw [copy]
  split
  · exact h.adds_plant (h.tidy_treeAt n)
  · exact h.adds_create _ _

theorem WellFormed.adds_importNode (h : d.WellFormed) (hother : other.WellFormed) (n : NodeId) :
    d.Adds (d.importNode other n).1 [(d.importNode other n).2] := h.adds_plant (hother.tidy_treeAt n)

theorem WellFormed.adds_copyAll (h : d.WellFormed) (ns : List NodeId) :
    d.Adds (d.copyAll ns).1 (d.copyAll ns).2 := by
  induction ns generalizing d with
  | nil => exact .nil h
  | cons n ns ih =>
    have hfirst := h.adds_copy n true
    exact hfirst.append (ih hfirst.wellFormed)

end Document
end DomQuery
