import DomQuery.Proofs.Document.Discard
import DomQuery.Proofs.Document.Grafting
import DomQuery.Proofs.Document.Planting
import DomQuery.Proofs.Document.Wrapping

/-!
How many nodes there are. Links do not count: moving changes no number, freeing takes away a whole
subtree, and a copy brings in as many nodes as the subtree has that is copied.
-/
namespace DomQuery

mutual

def Tree.size : Tree → Nat
  | .node _ _ children => 1 + Tree.sizeAll children

def Tree.sizeAll : List Tree → Nat
  | [] => 0
  | tree :: trees => tree.size + Tree.sizeAll trees

end

namespace Document
variable {d d' d'' other : Document} {S M : NodeId → Prop} {n m r : NodeId} {ns extra : List NodeId}

def nodes (d : Document) : List NodeId := (List.range d.fresh).filter d.isAllocated

theorem mem_nodes : n ∈ d.nodes ↔ d.isAllocated n := by
  rw [nodes, List.mem_filter, List.mem_range]
  exact and_iff_right_of_imp lt_fresh

theorem nodup_nodes (d : Document) : d.nodes.Nodup := List.nodup_range.filter _

theorem nodeCount_eq (d : Document) : d.nodeCount = d.nodes.length := by
  have hslots : d.slots.toList = (List.range d.fresh).map d.node? := by
    refine List.ext_getElem (by simp [fresh]) fun i hi _ => ?_
    have hi : i < d.slots.size := by simpa using hi
    simp [node?, hi]
  rw [nodeCount, ← Array.countP_toList, hslots, List.countP_map, List.countP_eq_length_filter]
  rfl

theorem nodeCount_eq_add (hnodup : extra.Nodup) (hextra : ∀ n ∈ extra, ¬ d.isAllocated n)
    (h : ∀ n, d'.isAllocated n ↔ d.isAllocated n ∨ n ∈ extra) :
    d'.nodeCount = d.nodeCount + extra.length := by
  have hall : (d.nodes ++ extra).Nodup := d.nodup_nodes.append hnodup fun n hn hmem =>
    hextra n hmem (mem_nodes.1 hn)
  have hperm : d'.nodes.Perm (d.nodes ++ extra) :=
    (List.perm_ext_iff_of_nodup d'.nodup_nodes hall).2 fun n => by
      rw [List.mem_append, mem_nodes, mem_nodes, h]
  rw [nodeCount_eq, nodeCount_eq, hperm.length_eq, List.length_append]

theorem nodeCount_congr (h : ∀ n, d'.isAllocated n ↔ d.isAllocated n) : d'.nodeCount = d.nodeCount :=
  nodeCount_eq_add List.nodup_nil (List.forall_mem_nil _) fun n => by simp [h n]

theorem nodeCount_put (d : Document) (spot : Spot) (n : NodeId) : (d.put spot n).nodeCount = d.nodeCount :=
  nodeCount_congr fun m => isAllocated_congr (data?_put d spot n m)

theorem nodeCount_graft (d other : Document) : (d.graft other).nodeCount = d.nodeCount + other.nodeCount := by
  have hshift (slot : Option Node) : (slot.map (Node.shift d.fresh)).isSome = slot.isSome := by
    cases slot <;> rfl
  simp only [nodeCount, graft, Array.countP_append, Array.countP_map, Function.comp_def, hshift]

/-! Subtrees. -/

def treeSize (d : Document) (n : NodeId) : Nat := (d.subtree n).length

/-- The number of nodes in several subtrees. -/
def forestSize (d : Document) (ns : List NodeId) : Nat := (ns.flatMap d.subtree).length

theorem forestSize_nil (d : Document) : d.forestSize [] = 0 := rfl

theorem forestSize_append (d : Document) (ns ms : List NodeId) :
    d.forestSize (ns ++ ms) = d.forestSize ns + d.forestSize ms := by
  rw [forestSize, forestSize, forestSize, List.flatMap_append, List.length_append]

theorem forestSize_cons (d : Document) (n : NodeId) (ns : List NodeId) :
    d.forestSize (n :: ns) = d.treeSize n + d.forestSize ns := by
  rw [forestSize, List.flatMap_cons, List.length_append, treeSize, forestSize]

theorem forestSize_map {f : NodeId → NodeId} (h : ∀ n ∈ ns, d'.treeSize (f n) = d.treeSize n) :
    d'.forestSize (ns.map f) = d.forestSize ns := by
  induction ns with
  | nil => rfl
  | cons n ns ih =>
    obtain ⟨hn, hns⟩ := List.forall_mem_cons.1 h
    rw [List.map_cons, forestSize_cons, forestSize_cons, hn, ih hns]

theorem forestSize_congr (h : ∀ n ∈ ns, d'.treeSize n = d.treeSize n) :
    d'.forestSize ns = d.forestSize ns := by simpa using forestSize_map (f := id) h

theorem forestSize_perm {ms : List NodeId} (h : ns.Perm ms) : d.forestSize ns = d.forestSize ms :=
  (h.flatMap_right d.subtree).length_eq

theorem sizeAll_map {f : NodeId → Tree} (h : ∀ n ∈ ns, (f n).size = d.treeSize n) :
    Tree.sizeAll (ns.map f) = d.forestSize ns := by
  induction ns with
  | nil => rfl
  | cons n ns ih =>
    obtain ⟨hn, hns⟩ := List.forall_mem_cons.1 h
    rw [List.map_cons, Tree.sizeAll, forestSize_cons, hn, ih hns]

theorem treeSize_adoptTopLevel (d : Document) (ns : List NodeId) (n : NodeId) :
    (d.adoptTopLevel ns).treeSize n = d.treeSize n := by
  have hwalk (bound : Nat) : (d.adoptTopLevel ns).subtreeOnto bound = d.subtreeOnto bound := by
    induction bound with
    | zero => rfl
    | succ bound ih =>
      funext n rest
      rw [subtreeOnto, subtreeOnto, ih]
      rfl
  exact congrArg List.length (congrFun (congrFun (hwalk d.slots.size) n) [])

section Sizes
variable (h : d.WellFormed)
include h

theorem WellFormed.treeSize_eq (hpos : 0 < d.fresh) :
    d.treeSize n = 1 + d.forestSize (d.children n) := by
  rw [treeSize, h.subtree_eq hpos, List.length_cons, Nat.add_comm, forestSize]

theorem WellFormed.treeSize_congr (hd : d'.WellFormed) (hpos : 0 < d.fresh) (hpos' : 0 < d'.fresh)
    (hlies : ∀ m, d'.LiesIn m n ↔ d.LiesIn m n) : d'.treeSize n = d.treeSize n := by
  have hperm : (d'.subtree n).Perm (d.subtree n) :=
    (List.perm_ext_iff_of_nodup (hd.nodup_subtree n) (h.nodup_subtree n)).2 fun m => by
      rw [hd.mem_subtree_iff hpos', h.mem_subtree_iff hpos, hlies]
  exact hperm.length_eq

theorem WellFormed.nodeCount_discard (hn : d.isAllocated n) :
    (d.discard n).nodeCount + d.treeSize n = d.nodeCount := by
  have hmem (m : NodeId) : m ∈ d.subtree n ↔ d.LiesIn m n :=
    h.mem_subtree_iff (Nat.zero_lt_of_lt (lt_fresh hn))
  refine (nodeCount_eq_add (h.nodup_subtree n) (fun m hm => ?_) fun m => ?_).symm
  · rw [h.isAllocated_discard hn]
    exact fun hkept => hkept.2 ((hmem m).1 hm)
  · rw [h.isAllocated_discard hn, hmem]
    refine ⟨fun hm => ?_, fun hm => hm.elim And.left fun hlies => hlies.isAllocated hn⟩
    by_cases hlies : d.LiesIn m n
    · exact .inr hlies
    · exact .inl ⟨hm, hlies⟩

theorem WellFormed.treeSize_discard (hn : d.isAllocated n) (hr : d.isAllocated r)
    (hapart : ¬ d.LiesIn r n ∧ ¬ d.LiesIn n r) : (d.discard n).treeSize r = d.treeSize r := by
  have hpos := Nat.zero_lt_of_lt (lt_fresh hr)
  refine h.treeSize_congr (h.discard hn) hpos (by rwa [fresh_discard]) fun m => ?_
  by_cases hm : d.LiesIn m n
  · refine iff_of_false (fun hmr => ?_) fun hmr => (liesIn_total hmr hm).elim hapart.1 hapart.2
    have hkept := hmr.isAllocated ((h.isAllocated_discard hn r).2 ⟨hr, hapart.1⟩)
    exact ((h.isAllocated_discard hn m).1 hkept).2 hm
  · exact h.liesIn_discard hn hm

theorem WellFormed.treeSize_grows (hgrows : d.Grows d') (hd : d'.WellFormed) (hn : n < d.fresh) :
    d'.treeSize n = d.treeSize n := by
  have hpos := Nat.zero_lt_of_lt hn
  refine h.treeSize_congr hd hpos (Nat.lt_of_lt_of_le hpos hgrows.fresh_le) fun m => ?_
  by_cases hm : m < d.fresh
  · exact or_congr_right (hgrows.isWithin_iff hm)
  · have hsplit : d'.Split (d.fresh ≤ ·) := hgrows.apart
    refine iff_of_false (fun hlies => ?_) fun hlies => ?_
    · exact Nat.not_lt_of_le ((hsplit.iff_of_liesIn hlies).1 (Nat.le_of_not_lt hm)) hn
    · rcases hlies with rfl | hwithin
      · exact hm hn
      · obtain ⟨p, hp⟩ := exists_parent?_of_isWithin hwithin
        exact hm (lt_fresh (isAllocated_of_parent? hp))

/-- No node of the set gets a parent in the set, so a subtree of which nothing moves but its root
stays whole. -/
theorem WellFormed.treeSize_moves (hmoves : d.Moves S M d') (hsealed : d.Sealed S) (hr : S r)
    (hpos : 0 < d.fresh) (hfixed : ∀ a, d.isWithin a r → ¬ M a) : d'.treeSize r = d.treeSize r := by
  refine h.treeSize_congr hmoves.wellFormed hpos (Nat.lt_of_lt_of_le hpos hmoves.fresh_le) fun m => ?_
  constructor
  · intro hm
    have hsealed' := hmoves.sealed hsealed
    induction liesIn_iff.1 hm using Relation.ReflTransGen.head_induction_on with
    | refl => exact .inl rfl
    | @head a b hstep hreach ih =>
      have hb := hsealed'.of_liesIn (liesIn_iff.2 hreach) hr
      rcases hmoves.parent? a with hsame | ⟨-, q, hq, hout⟩
      · exact .trans (.inr (isWithin_of_parent? (hsame.symm.trans hstep))) (ih (liesIn_iff.2 hreach))
      · exact absurd (Option.some.inj (hq.symm.trans hstep) ▸ hb) hout
  · intro hm
    induction liesIn_iff.1 hm using Relation.ReflTransGen.head_induction_on with
    | refl => exact .inl rfl
    | @head a b hstep hreach ih =>
      have ha := (isWithin_iff_of_parent? hstep).2 (liesIn_iff.2 hreach)
      have hsame := (hmoves.parent? a).resolve_right fun hmoved => hfixed a ha hmoved.1
      exact .trans (.inr (isWithin_of_parent? (hsame.trans hstep))) (ih (liesIn_iff.2 hreach))

theorem WellFormed.forestSize_moves (hmoves : d.Moves S M d') (hS : ∀ n, S n → n < d.fresh)
    (hsealed : d.Sealed S) (hns : ∀ n ∈ ns, S n) (hfixed : ∀ n ∈ ns, ∀ a, d.isWithin a n → ¬ M a) :
    d'.forestSize ns = d.forestSize ns :=
  forestSize_congr fun n hn => h.treeSize_moves hmoves hsealed (hns n hn)
    (Nat.zero_lt_of_lt (hS n (hns n hn))) (hfixed n hn)

end Sizes

theorem treeSize_graft (hother : other.WellFormed) (hpos : 0 < other.fresh) (d : Document) (n : NodeId) :
    (d.graft other).treeSize (n + d.fresh) = other.treeSize n := by
  rw [treeSize, treeSize, hother.subtree_graft hpos, List.length_map]

/-! Copies. -/

mutual

theorem fresh_plantUnder (d : Document) (parent : Option NodeId) :
    ∀ tree : Tree, (d.plantUnder parent tree).1.fresh = d.fresh + tree.size
  | .node kind space children => by
    rw [plantUnder, fresh_modify, fresh_plantAllUnder, fresh_add, Tree.size, Nat.add_assoc]

theorem fresh_plantAllUnder (d : Document) (parent : NodeId) :
    ∀ trees : List Tree, (d.plantAllUnder parent trees).1.fresh = d.fresh + Tree.sizeAll trees
  | [] => rfl
  | tree :: trees => by
    rw [plantAllUnder, fresh_plantAllUnder, fresh_plantUnder, Tree.sizeAll, Nat.add_assoc]

end

section Planted
variable {size : Nat} (h : d.Planted d' none ns) (hsize : d'.fresh = d.fresh + size)
include h hsize

theorem Planted.mem_range' : m ∈ List.range' d.fresh size ↔ d.fresh ≤ m ∧ d'.isAllocated m := by
  rw [List.mem_range'_1, ← hsize]
  exact and_congr_right fun hle => ⟨h.isAllocated m hle, lt_fresh⟩

theorem Planted.nodeCount : d'.nodeCount = d.nodeCount + size := by
  have hmem (m : NodeId) := h.mem_range' hsize (m := m)
  rw [nodeCount_eq_add (d := d) (List.nodup_range' (s := d.fresh) (n := size))
    (fun m hm hallocated => ?_) fun m => ?_, List.length_range']
  · exact Nat.not_lt_of_le ((hmem m).1 hm).1 (lt_fresh hallocated)
  · rw [hmem]
    by_cases hm : m < d.fresh
    · rw [Document.isAllocated, h.node? m hm, ← Document.isAllocated]
      exact (or_iff_left fun hnew => Nat.not_lt_of_le hnew.1 hm).symm
    · rw [or_iff_right fun hallocated => hm (lt_fresh hallocated)]
      exact (and_iff_right (Nat.le_of_not_lt hm)).symm

theorem Planted.treeSize (hd : d.WellFormed) {root : NodeId} (hroot : ns = [root]) : d'.treeSize root = size := by
  subst hroot
  obtain ⟨hle, hlt, -⟩ := h.of_mem root List.mem_cons_self
  have hwell := h.wellFormed hd
  have hperm : (d'.subtree root).Perm (List.range' d.fresh size) := by
    refine (List.perm_ext_iff_of_nodup (hwell.nodup_subtree root) List.nodup_range').2 fun m => ?_
    rw [hwell.mem_subtree_iff (Nat.zero_lt_of_lt hlt), h.mem_range' hsize]
    refine ⟨fun hm => ?_, fun hm => ?_⟩
    · exact ⟨(h.grows hd).le_of_liesIn hm hle, hm.isAllocated (h.isAllocated root hle hlt)⟩
    · obtain ⟨_, hroot, hlies⟩ := h.exists_liesIn hm.1 (lt_fresh hm.2)
      exact List.mem_singleton.1 hroot ▸ hlies
  rw [Document.treeSize, hperm.length_eq, List.length_range']

end Planted

section Copying
variable (h : d.WellFormed)
include h

theorem WellFormed.size_treeAt (hpos : 0 < d.fresh) (n : NodeId) : (d.treeAt n).size = d.treeSize n := by
  have hall (bound : Nat) (hbound : d.slots.size ≤ bound + (d.ancestors n).length) :
      (d.treeWithin bound n).size = d.treeSize n := by
    induction n using h.descend generalizing bound with
    | step n ih =>
      have hdepth := h.length_ancestors_lt (n := n) hpos
      rw [fresh] at *
      obtain ⟨bound, rfl⟩ : ∃ k, bound = k + 1 := Nat.exists_eq_add_one.2 (by omega)
      rw [treeWithin, Tree.size, h.treeSize_eq hpos]
      refine congrArg (1 + ·) (sizeAll_map fun c hc => ?_)
      have hlen := h.length_ancestors_of_mem_children hc
      exact ih c hc bound (by omega)
  exact hall d.slots.size (Nat.le_add_right ..)

theorem WellFormed.copy_counted (hpos : 0 < d.fresh) (n : NodeId) :
    (d.copy n true).1.nodeCount = d.nodeCount + d.treeSize n ∧
      (d.copy n true).1.treeSize (d.copy n true).2 = d.treeSize n ∧
      (d.copy n true).1.parent? (d.copy n true).2 = none := by
  have hplanted := planted_plantUnder d none (h.tidy_treeAt n)
  have hfresh := fresh_plantUnder d none (d.treeAt n)
  rw [h.size_treeAt hpos] at hfresh
  rw [copy, if_pos rfl, plant]
  exact ⟨hplanted.nodeCount hfresh, hplanted.treeSize hfresh h rfl,
    (hplanted.of_mem _ List.mem_cons_self).2.2⟩

theorem WellFormed.copyAll_counted (hns : ∀ n ∈ ns, d.isAllocated n) :
    (d.copyAll ns).1.nodeCount = d.nodeCount + d.forestSize ns ∧
      (d.copyAll ns).1.forestSize (d.copyAll ns).2 = d.forestSize ns ∧
      ∀ c ∈ (d.copyAll ns).2, (d.copyAll ns).1.parent? c = none := by
  induction ns generalizing d with
  | nil => exact ⟨rfl, rfl, nofun⟩
  | cons n ns ih =>
    obtain ⟨hn, hrest⟩ := List.forall_mem_cons.1 hns
    have hadds := h.adds_copy n true
    obtain ⟨hcount, hsize, hparent⟩ := h.copy_counted (Nat.zero_lt_of_lt (lt_fresh hn)) n
    have hd := hadds.wellFormed
    obtain ⟨hcount', hsize', hparent'⟩ := ih hd fun m hm => hadds.grows.toExtends.isAllocated (hrest m hm)
    have hsame : (d.copy n true).1.forestSize ns = d.forestSize ns :=
      forestSize_congr fun m hm => h.treeSize_grows hadds.grows hd (lt_fresh (hrest m hm))
    have hadds' := hd.adds_copyAll ns
    have hcopy := lt_fresh (hadds.of_mem _ List.mem_cons_self).2
    rw [copyAll]
    refine ⟨?_, ?_, List.forall_mem_cons.2 ⟨?_, hparent'⟩⟩
    · rw [hcount', hcount, hsame, forestSize_cons, Nat.add_assoc]
    · rw [forestSize_cons, forestSize_cons, hsize', hsame,
        hd.treeSize_grows hadds'.grows hadds'.wellFormed hcopy, hsize]
    · rw [hadds'.grows.parent?_of_lt hcopy, hparent]

end Copying

end Document
end DomQuery
