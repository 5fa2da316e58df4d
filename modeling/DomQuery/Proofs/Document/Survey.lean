import DomQuery.Document.Order
import DomQuery.Proofs.Distinct
import DomQuery.Proofs.Document.Order

/-!
The keys that nodes are sorted by. Positions that are remembered from earlier walks are the positions of
the nodes in their families, and trees are ranked by where the list first comes to them, so that a key
depends on the node and the list only and not on what was walked before.
-/
namespace DomQuery.Document
variable {d : Document} {n m p : NodeId} {i : Nat} {nodes tops : List NodeId} {s : Survey}

def position (d : Document) (n : NodeId) : Nat := (d.brood n).idxOf n

def path (d : Document) (n : NodeId) : List Nat := ((n :: d.ancestors n).map d.position).reverse

/-- The key of a node when the trees are ranked as in `tops`. -/
def keyAmong (d : Document) (tops : List NodeId) (n : NodeId) : List Nat :=
  tops.idxOf (d.top n) :: d.path n

def Survey.Sound (d : Document) (s : Survey) : Prop :=
  ∀ n i, s.positions[n]? = some i → i = d.position n

theorem map_snd_keyed (d : Document) (s : Survey) (nodes : List NodeId) :
    (s.keyed d nodes).map (·.2) = nodes := by
  induction nodes generalizing s with
  | nil => rfl
  | cons n nodes ih => rw [Survey.keyed, List.map_cons, ih]

theorem sortByOrder_perm (d : Document) (nodes : List NodeId) : (d.sortByOrder nodes).Perm nodes := by
  have hperm := (List.mergeSort_perm (Survey.keyed d {} nodes) fun a b => keyLe a.1 b.1).map (·.2)
  rwa [map_snd_keyed] at hperm

theorem mem_sortByOrder : n ∈ d.sortByOrder nodes ↔ n ∈ nodes := (d.sortByOrder_perm nodes).mem_iff

namespace WellFormed
variable (h : d.WellFormed)
include h

theorem position_of_mem_zipIdx (hn : (n, i) ∈ (d.children p).zipIdx) : i = d.position n := by
  have hi := List.mk_mem_zipIdx_iff_getElem?.1 hn
  obtain ⟨hlt, rfl⟩ := List.getElem?_eq_some_iff.1 hi
  have hp := h.parent?_eq_some_iff.2 (List.getElem_mem hlt)
  rw [position, brood, hp, (h.nodup_children p).idxOf_getElem]

theorem getElem?_insertMany_zipIdx (positions : Std.HashMap NodeId Nat) (p n : NodeId) :
    (positions.insertMany (d.children p).zipIdx)[n]? =
      if n ∈ d.children p then some (d.position n) else positions[n]? := by
  split
  · rename_i hn
    obtain ⟨i, hi⟩ := List.mem_iff_getElem?.1 hn
    have hmem := List.mk_mem_zipIdx_iff_getElem?.2 hi
    rw [← h.position_of_mem_zipIdx hmem]
    refine Std.HashMap.getElem?_insertMany_list_of_mem (beq_self_eq_true n) ?_ hmem
    have hnodup := h.nodup_children p
    rw [← List.zipIdx_map_fst 0 (d.children p), List.Nodup, List.pairwise_map] at hnodup
    exact hnodup.imp fun hne => beq_eq_false_iff_ne.2 hne
  · rename_i hn
    refine Std.HashMap.getElem?_insertMany_list_of_contains_eq_false ?_
    rw [List.zipIdx_map_fst, ← Bool.not_eq_true, List.contains_iff_mem]
    exact hn

theorem survey_position (hs : s.Sound d) (n : NodeId) :
    ∃ s' : Survey, s.position d n = (s', d.position n) ∧ s'.Sound d ∧ s'.tops = s.tops := by
  rw [Survey.position]
  split
  · rename_i i hi
    exact ⟨s, by rw [hs n i hi], hs, rfl⟩
  · rename_i p hn hp
    refine ⟨{ s with positions := s.positions.insertMany (d.children p).zipIdx }, ?_,
      fun m i hm => ?_, rfl⟩
    · dsimp only
      rw [Std.HashMap.getD_eq_getD_getElem?, h.getElem?_insertMany_zipIdx,
        if_pos (h.parent?_eq_some_iff.1 hp), Option.getD_some]
    · rw [h.getElem?_insertMany_zipIdx] at hm
      split at hm
      · exact (Option.some.inj hm).symm
      · exact hs m i hm
  · rename_i hp
    exact ⟨s, by rw [position, brood, hp, List.idxOf_nil], hs, rfl⟩

theorem survey_positionsOf (hs : s.Sound d) (ns : List NodeId) :
    ∃ s' : Survey, s.positionsOf d ns = (s', ns.map d.position) ∧ s'.Sound d ∧ s'.tops = s.tops := by
  induction ns generalizing s with
  | nil => exact ⟨s, rfl, hs, rfl⟩
  | cons n ns ih =>
    obtain ⟨s', hn, hs', htops'⟩ := h.survey_position hs n
    obtain ⟨s'', hns, hs'', htops''⟩ := ih hs'
    refine ⟨s'', ?_, hs'', htops''.trans htops'⟩
    rw [Survey.positionsOf, hn]
    simp only [hns, List.map_cons]

omit h in
theorem survey_rank (hs : s.Sound d) (top : NodeId) (rest : List NodeId) :
    ∃ s' : Survey, s.rank top = (s', (s.tops ++ distinctFrom s.tops (top :: rest)).idxOf top) ∧
      s'.Sound d ∧
      s'.tops ++ distinctFrom s'.tops rest = s.tops ++ distinctFrom s.tops (top :: rest) := by
  rw [Survey.rank, distinctFrom]
  by_cases htop : top ∈ s.tops
  · have hrank : s.tops.idxOf? top = some (s.tops.idxOf top) :=
      List.findIdx?_eq_some_of_exists ⟨top, htop, beq_self_eq_true top⟩
    rw [hrank, if_pos htop, List.idxOf_append_of_mem htop]
    exact ⟨s, rfl, hs, rfl⟩
  · rw [List.idxOf?_eq_none_iff.2 htop, if_neg htop, List.idxOf_append_of_notMem htop,
      List.idxOf_cons_self]
    refine ⟨{ s with tops := s.tops ++ [top] }, rfl, hs, ?_⟩
    have hmem (t : NodeId) : t ∈ s.tops ++ [top] ↔ t ∈ top :: s.tops := by simp [or_comm]
    rw [distinctFrom_congr hmem, List.append_assoc, List.singleton_append]

theorem survey_keyed (hs : s.Sound d) (nodes : List NodeId) :
    s.keyed d nodes = nodes.map fun n =>
      (d.keyAmong (s.tops ++ distinctFrom s.tops (nodes.map d.top)) n, n) := by
  induction nodes generalizing s with
  | nil => rfl
  | cons n nodes ih =>
    obtain ⟨s', hpath, hs', htops'⟩ := h.survey_positionsOf hs (n :: d.ancestors n)
    obtain ⟨s'', hrank, hs'', htops''⟩ := survey_rank hs' (d.top n) (nodes.map d.top)
    rw [htops'] at hrank htops''
    rw [Survey.keyed, Survey.key, hpath]
    simp only [hrank, ih hs'', htops'', List.map_cons]
    rfl

/-- Remembering changes nothing: nodes are sorted by the rank of their trees and then by their paths. -/
theorem sortByOrder_eq_mergeSort (nodes : List NodeId) :
    let tops := distinct (nodes.map d.top)
    d.sortByOrder nodes = nodes.mergeSort fun a b => keyLe (d.keyAmong tops a) (d.keyAmong tops b) := by
  intro tops
  have hs : Survey.Sound d {} := fun n i hn => by simp at hn
  have hkeyed := h.survey_keyed hs nodes
  rw [List.nil_append, ← distinct] at hkeyed
  have hmap := List.map_mergeSort (r := fun a b => keyLe (d.keyAmong tops a) (d.keyAmong tops b))
    (s := fun a b => keyLe a.1 b.1) (f := fun n => (d.keyAmong tops n, n)) (l := nodes) fun _ _ _ _ => rfl
  rw [sortByOrder, hkeyed, ← hmap, List.map_map]
  exact List.map_id' _

end WellFormed
end DomQuery.Document
