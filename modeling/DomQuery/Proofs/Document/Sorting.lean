import DomQuery.Proofs.Document.Survey

/-!
Sorting by document order. Paths compare as nodes stand in a tree, so that a sorted list takes the trees one
after the other and each of them in document order. A list in this order is the only one with its members,
and equal nodes stand together in it.
-/
namespace DomQuery
section Pairwise
variable {α : Type} {R : α → α → Prop} {p : α → Bool} {x : α} {xs : List α}

theorem filter_prefix_of_pairwise (hp : ∀ a b c, R a b → R b c → p a → p c → p b) (hx : p x)
    (hxs : (x :: xs).Pairwise R) : xs.filter p <+: xs := by
  induction xs with
  | nil => exact List.prefix_rfl
  | cons y ys ih =>
    obtain ⟨hxy, hys⟩ := List.pairwise_cons.1 hxs
    by_cases hy : p y
    · rw [List.filter_cons_of_pos hy, List.prefix_cons_inj]
      exact ih (hxs.sublist (.cons_cons x (List.sublist_cons_self y ys)))
    · -- behind `y` there is nothing of the kind either
      have hnil : ys.filter p = [] := by
        refine List.filter_eq_nil_iff.2 fun z hz hpz => hy ?_
        exact hp x y z (hxy y List.mem_cons_self) (List.rel_of_pairwise_cons hys hz) hx hpz
      rw [List.filter_cons_of_neg hy, hnil]
      exact List.nil_prefix

/-- In a list in order the members of a convex kind stand together. -/
theorem filter_infix_of_pairwise (hp : ∀ a b c, R a b → R b c → p a → p c → p b)
    (hxs : xs.Pairwise R) : xs.filter p <:+: xs := by
  induction xs with
  | nil => exact List.infix_rfl
  | cons x xs ih =>
    by_cases hx : p x
    · rw [List.filter_cons_of_pos hx]
      exact ((List.prefix_cons_inj x).2 (filter_prefix_of_pairwise hp hx hxs)).isInfix
    · rw [List.filter_cons_of_neg hx]
      exact List.infix_cons (ih (List.pairwise_cons.1 hxs).2)

end Pairwise

namespace Document
variable {d : Document} {n m p a b c x y : NodeId} {nodes sorted tops xs : List NodeId}

/-- The order of a sorted list: trees as `tops` lists them, and each tree in document order. -/
def Follows (d : Document) (tops : List NodeId) (a b : NodeId) : Prop :=
  (d.top a = d.top b ∧ (a = b ∨ d.Precedes a b)) ∨ tops.idxOf (d.top a) < tops.idxOf (d.top b)

theorem Follows.idxOf_le (hab : d.Follows tops a b) : tops.idxOf (d.top a) ≤ tops.idxOf (d.top b) := by
  obtain ⟨htop, -⟩ | hlt := hab
  · rw [htop]
  · exact hlt.le

theorem Follows.top_eq (hab : d.Follows tops a b) (hbc : d.Follows tops b c) (hac : d.top a = d.top c) :
    d.top a = d.top b := by
  obtain ⟨htop, -⟩ | hlt := hab
  · exact htop
  · have hle := hbc.idxOf_le
    rw [← hac] at hle
    exact absurd hlt hle.not_gt

/-! Keys. -/

theorem keyLe_iff {k l : List Nat} : keyLe k l ↔ ¬ List.Lex (· < ·) l k := by
  simp [keyLe]

theorem keyLe_cons_iff {i j : Nat} {k l : List Nat} :
    keyLe (i :: k) (j :: l) ↔ i < j ∨ i = j ∧ keyLe k l := by
  simp only [keyLe_iff]
  exact List.cons_le_cons_iff

theorem keyLe_trans {k l o : List Nat} (hkl : keyLe k l) (hlo : keyLe l o) : keyLe k o :=
  keyLe_iff.2 (List.le_trans (keyLe_iff.1 hkl) (keyLe_iff.1 hlo))

theorem keyLe_total (k l : List Nat) : keyLe k l ∨ keyLe l k :=
  (List.le_total k l).imp keyLe_iff.2 keyLe_iff.2

namespace WellFormed
variable (h : d.WellFormed)
include h

/-! Paths. -/

theorem path_of_parent? (hp : d.parent? n = some p) : d.path n = d.path p ++ [d.position n] := by
  rw [path, path, h.ancestors_of_parent? hp, List.map_cons, List.reverse_cons]

theorem path_prefix_of_liesIn (hn : d.LiesIn n a) : d.path a <+: d.path n := by
  induction liesIn_iff.1 hn using Relation.ReflTransGen.head_induction_on with
  | refl => exact List.prefix_rfl
  | head hp hq ih =>
    rw [h.path_of_parent? hp]
    exact (ih (liesIn_iff.2 hq)).trans (List.prefix_append _ _)

theorem position_lt_of_sublist_children (hxy : [x, y].Sublist (d.children p)) :
    d.position x < d.position y := by
  have hx := h.parent?_eq_some_iff.2 (hxy.subset (by simp : x ∈ [x, y]))
  have hy := h.parent?_eq_some_iff.2 (hxy.subset (by simp : y ∈ [x, y]))
  have hchildren := pairwise_idxOf_distinct (d.children p)
  rw [distinct_of_nodup (h.nodup_children p), List.pairwise_iff_forall_sublist] at hchildren
  rw [position, position, brood, brood, hx, hy]
  exact hchildren hxy

theorem path_lt_of_precedes (hab : d.Precedes a b) :
    List.Lex (· < ·) (d.path a) (d.path b) := by
  cases hab with
  | above hwithin =>
    obtain ⟨q, hq, hlies⟩ := isWithin_iff_exists_liesIn.1 hwithin
    obtain ⟨rest, hb⟩ := h.path_prefix_of_liesIn hlies
    rw [← hb, h.path_of_parent? hq, List.append_assoc]
    have hlt : List.Lex (· < ·) (d.path a ++ []) (d.path a ++ d.position q :: rest) :=
      List.append_left_lt (List.nil_lt_cons _ _)
    rwa [List.append_nil] at hlt
  | @beside p x y hxy hax hby =>
    have hx := h.parent?_eq_some_iff.2 (hxy.subset (by simp : x ∈ [x, y]))
    have hy := h.parent?_eq_some_iff.2 (hxy.subset (by simp : y ∈ [x, y]))
    obtain ⟨below, ha⟩ := h.path_prefix_of_liesIn hax
    obtain ⟨below', hb⟩ := h.path_prefix_of_liesIn hby
    rw [← ha, ← hb, h.path_of_parent? hx, h.path_of_parent? hy, List.append_assoc, List.append_assoc]
    refine List.append_left_lt (List.cons_lt_cons_iff.2 (.inl ?_))
    exact h.position_lt_of_sublist_children hxy

theorem keyLe_path_iff (htop : d.top a = d.top b) :
    keyLe (d.path a) (d.path b) ↔ a = b ∨ d.Precedes a b := by
  rw [keyLe_iff]
  constructor
  · intro hle
    obtain heq | hab | hba := h.precedes_total (h.liesIn_top a) (htop ▸ h.liesIn_top b)
    · exact .inl heq
    · exact .inr hab
    · exact absurd (h.path_lt_of_precedes hba) hle
  · rintro (rfl | hab)
    · exact List.lt_irrefl _
    · exact List.lt_asymm (h.path_lt_of_precedes hab)

theorem keyLe_keyAmong_iff (ha : d.top a ∈ tops) :
    keyLe (d.keyAmong tops a) (d.keyAmong tops b) ↔ d.Follows tops a b := by
  rw [keyAmong, keyAmong, keyLe_cons_iff, List.idxOf_inj ha, or_comm, Follows]
  exact or_congr_left (and_congr_right fun htop => h.keyLe_path_iff htop)

theorem Follows.antisymm (hab : d.Follows tops a b) (hba : d.Follows tops b a) : a = b := by
  obtain ⟨htop, hab⟩ | hlt := hab
  · obtain ⟨-, hba⟩ | hlt := hba
    · exact hab.resolve_right fun hab =>
        hba.elim (fun heq => h.precedes_asymm hab (heq ▸ hab)) (h.precedes_asymm hab)
    · exact absurd hlt (by rw [htop]; exact Nat.lt_irrefl _)
  · exact absurd hlt hba.idxOf_le.not_gt

/-! Sorted lists. -/

theorem pairwise_sortByOrder (nodes : List NodeId) :
    (d.sortByOrder nodes).Pairwise (d.Follows (distinct (nodes.map d.top))) := by
  let le (a b : NodeId) : Bool :=
    keyLe (d.keyAmong (distinct (nodes.map d.top)) a) (d.keyAmong (distinct (nodes.map d.top)) b)
  have hpairwise : (d.sortByOrder nodes).Pairwise fun a b => le a b := by
    rw [h.sortByOrder_eq_mergeSort]
    refine List.pairwise_mergeSort (fun a b c hab hbc => ?_) (fun a b => ?_) nodes
    · exact keyLe_trans hab hbc
    · exact Bool.or_eq_true_iff.2 (keyLe_total _ _)
  refine hpairwise.imp_of_mem fun {a b} ha _ hab => (h.keyLe_keyAmong_iff ?_).1 hab
  exact mem_distinct.2 (List.mem_map_of_mem (mem_sortByOrder.1 ha))

theorem sortByOrder_eq_of_pairwise (hperm : sorted.Perm nodes)
    (hsorted : sorted.Pairwise (d.Follows (distinct (nodes.map d.top)))) :
    d.sortByOrder nodes = sorted :=
  List.Perm.eq_of_pairwise (fun _ _ _ _ => Follows.antisymm h) (h.pairwise_sortByOrder nodes) hsorted
    ((d.sortByOrder_perm nodes).trans hperm.symm)

theorem distinct_map_top_sortByOrder (nodes : List NodeId) :
    distinct ((d.sortByOrder nodes).map d.top) = distinct (nodes.map d.top) := by
  let tops := distinct (nodes.map d.top)
  have hmem (t : NodeId) : t ∈ distinct ((d.sortByOrder nodes).map d.top) ↔ t ∈ tops := by
    rw [mem_distinct, mem_distinct]
    exact ((d.sortByOrder_perm nodes).map d.top).mem_iff
  have hsorted : (distinct ((d.sortByOrder nodes).map d.top)).Pairwise
      fun s t => tops.idxOf s ≤ tops.idxOf t :=
    ((h.pairwise_sortByOrder nodes).map d.top fun _ _ => Follows.idxOf_le).sublist distinct_sublist
  have htops : tops.Pairwise fun s t => tops.idxOf s ≤ tops.idxOf t := by
    have hranks := pairwise_idxOf_distinct tops
    rw [distinct_of_nodup nodup_distinct] at hranks
    exact hranks.imp Nat.le_of_lt
  refine List.Perm.eq_of_pairwise (fun s t _ ht hst hts => ?_) hsorted htops ?_
  · exact ((List.idxOf_inj ht).1 (Nat.le_antisymm hts hst)).symm
  · exact (List.perm_ext_iff_of_nodup nodup_distinct nodup_distinct).2 hmem

theorem sortByOrder_sortByOrder (nodes : List NodeId) :
    d.sortByOrder (d.sortByOrder nodes) = d.sortByOrder nodes := by
  refine h.sortByOrder_eq_of_pairwise (.refl _) ?_
  rw [h.distinct_map_top_sortByOrder]
  exact h.pairwise_sortByOrder nodes

/-- Without repetitions the list takes from each tree what is listed of it. -/
theorem sortByOrder_eq (hpos : 0 < d.slots.size) (hnodes : nodes.Nodup) :
    d.sortByOrder nodes =
      (distinct (nodes.map d.top)).flatMap fun t => (d.subtree t).filter (· ∈ nodes) := by
  have htops := pairwise_idxOf_distinct (distinct (nodes.map d.top))
  rw [distinct_of_nodup nodup_distinct] at htops
  have htop {t n : NodeId} (ht : t ∈ distinct (nodes.map d.top))
      (hn : n ∈ (d.subtree t).filter (· ∈ nodes)) : d.top n = t := by
    obtain ⟨m, -, rfl⟩ := List.mem_map.1 (mem_distinct.1 ht)
    exact h.top_eq_of_liesIn ((h.mem_subtree_iff hpos).1 (List.mem_filter.1 hn).1) (h.parent?_top m)
  have hsorted : ((distinct (nodes.map d.top)).flatMap fun t =>
      (d.subtree t).filter (· ∈ nodes)).Pairwise
        fun a b => d.Follows (distinct (nodes.map d.top)) a b ∧ a ≠ b := by
    refine List.pairwise_flatMap.2 ⟨fun t ht => ?_, htops.imp_of_mem fun {s t} hs ht hst a ha b hb => ?_⟩
    · refine ((h.pairwise_precedes_subtree t).filter _).imp_of_mem fun {a b} ha hb hab => ?_
      refine ⟨.inl ⟨(htop ht ha).trans (htop ht hb).symm, .inr hab⟩, ?_⟩
      rintro rfl
      exact h.precedes_asymm hab hab
    · rw [Follows, htop hs ha, htop ht hb]
      refine ⟨.inr hst, ?_⟩
      rintro rfl
      rw [← htop hs ha, ← htop ht hb] at hst
      exact Nat.lt_irrefl _ hst
  refine h.sortByOrder_eq_of_pairwise ?_ (hsorted.imp And.left)
  refine (List.perm_ext_iff_of_nodup (hsorted.imp And.right) hnodes).2 fun n => ?_
  simp only [List.mem_flatMap, List.mem_filter, decide_eq_true_eq, mem_distinct]
  refine ⟨fun ⟨_, _, _, hn⟩ => hn, fun hn => ⟨d.top n, List.mem_map_of_mem hn, ?_, hn⟩⟩
  exact (h.mem_subtree_iff hpos).2 (h.liesIn_top n)

end WellFormed

/-- Sorting lists the same nodes, each as often as before. Each tree is in document order and in one piece,
equal nodes stand together, and the trees come as the list first came to them. What is in this order, and
nothing else, stays as it is. -/
theorem sortByOrder_sorts (d : Document) (h : d.WellFormed) (nodes : List NodeId) :
    let sorted := d.sortByOrder nodes
    sorted.Perm nodes ∧
      (∀ t, (sorted.filter (d.top · = t)).Pairwise (fun a b => a = b ∨ d.Precedes a b) ∧
        sorted.filter (d.top · = t) <:+: sorted) ∧
      (∀ n, List.replicate (nodes.count n) n <:+: sorted) ∧
      distinct (sorted.map d.top) = distinct (nodes.map d.top) ∧
      d.sortByOrder sorted = sorted ∧
      ∀ xs, d.sortByOrder xs = xs ↔ xs.Pairwise (d.Follows (distinct (xs.map d.top))) := by
  intro sorted
  have hsorted := h.pairwise_sortByOrder nodes
  refine ⟨d.sortByOrder_perm nodes, fun t => ⟨?_, ?_⟩, fun n => ?_,
    h.distinct_map_top_sortByOrder nodes, h.sortByOrder_sortByOrder nodes, fun xs => ?_⟩
  · refine (hsorted.filter _).imp_of_mem fun {a b} ha hb hab => ?_
    have htop : d.top a = d.top b := by
      rw [of_decide_eq_true (List.mem_filter.1 ha).2, of_decide_eq_true (List.mem_filter.1 hb).2]
    obtain ⟨-, hab⟩ | hlt := hab
    · exact hab
    · exact absurd hlt (by rw [htop]; exact Nat.lt_irrefl _)
  · refine filter_infix_of_pairwise (fun a b c hab hbc ha hc => ?_) hsorted
    simp only [decide_eq_true_eq] at ha hc ⊢
    rw [← hab.top_eq hbc (ha.trans hc.symm), ha]
  · rw [← (d.sortByOrder_perm nodes).count_eq, ← List.filter_beq]
    refine filter_infix_of_pairwise (fun a b c hab hbc ha hc => ?_) hsorted
    rw [beq_iff_eq] at ha hc ⊢
    subst ha hc
    exact (WellFormed.Follows.antisymm h hab hbc).symm
  · refine ⟨fun heq => ?_, h.sortByOrder_eq_of_pairwise (.refl xs)⟩
    have hxs := h.pairwise_sortByOrder xs
    rwa [heq] at hxs

/-- Siblings that a fragment holds, a node with its ancestor, and one that is listed twice. -/
theorem sortByOrder_sorts_fragment :
    let d : Document := { slots := #[
      some { kind := .fragment, children := [1, 2] },
      some { kind := .element { tag := "p" }, parent := some 0, children := [3] },
      some { kind := .text "t", parent := some 0 },
      some { kind := .element { tag := "b" }, parent := some 1 },
      some { kind := .element { tag := "ul" }, children := [6, 5] },
      some { kind := .element { tag := "li" }, parent := some 4 },
      some { kind := .element { tag := "li" }, parent := some 4 }] }
    d.WellFormed ∧ d.sortByOrder [5, 2, 3, 5, 6, 1, 4] = [4, 6, 5, 5, 1, 3, 2] ∧
      [4, 6, 5, 5].Pairwise (fun a b => a = b ∨ d.Precedes a b) ∧
      d.sortByOrder [4, 6, 5, 5, 1, 3, 2] = [4, 6, 5, 5, 1, 3, 2] := by
  intro d
  have h : d.WellFormed := by decide +kernel
  have hsort : d.sortByOrder [5, 2, 3, 5, 6, 1, 4] = [4, 6, 5, 5, 1, 3, 2] := by
    have htops : ∀ n ∈ [4, 6, 5, 5, 1, 3, 2], d.top n ∈ [4, 0] := by decide +kernel
    have hkeys : [4, 6, 5, 5, 1, 3, 2].Pairwise
        fun a b => keyLe (d.keyAmong [4, 0] a) (d.keyAmong [4, 0] b) := by decide +kernel
    exact h.sortByOrder_eq_of_pairwise (by decide)
      (hkeys.imp_of_mem fun ha _ hab => (h.keyLe_keyAmong_iff (htops _ ha)).1 hab)
  obtain ⟨-, htrees, -, -, hidem, -⟩ := sortByOrder_sorts d h [5, 2, 3, 5, 6, 1, 4]
  rw [hsort] at htrees hidem
  exact ⟨h, hsort, (htrees 4).1, hidem⟩

end Document
end DomQuery
