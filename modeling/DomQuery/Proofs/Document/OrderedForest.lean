import DomQuery.Proofs.Document.WellFormed

/-!
Ordered forests. In a well-formed document every link that can be asked for says the same: parents,
children, first and last child, and the siblings next to a node.
-/
namespace DomQuery.Document
variable {d : Document} {n p : NodeId} {i : Nat} {xs : List NodeId}

structure OrderedForest (d : Document) : Prop where
  /-- No node is a child of two. -/
  eq_of_mem_children : ∀ {n p q}, n ∈ d.children p → n ∈ d.children q → p = q
  parent?_eq_some_iff : ∀ {n p}, d.parent? n = some p ↔ n ∈ d.children p
  count_children : ∀ {n p}, d.parent? n = some p → (d.children p).count n = 1
  firstChild?_eq : ∀ p, d.firstChild? p = (d.children p)[0]?
  lastChild?_eq : ∀ p, d.lastChild? p = (d.children p)[(d.children p).length - 1]?
  /-- The siblings before a node are those with smaller indices. The nearest, which is the previous
  sibling, comes first. -/
  preceding_eq : ∀ {n p i}, (d.children p)[i]? = some n → d.preceding n = ((d.children p).take i).reverse
  /-- The next sibling comes first. -/
  following_eq : ∀ {n p i}, (d.children p)[i]? = some n → d.following n = (d.children p).drop (i + 1)
  siblings_of_parent?_eq_none : ∀ {n}, d.parent? n = none → d.preceding n = [] ∧ d.following n = []
  not_isWithin_self : ∀ n, ¬ d.isWithin n n
  children_of_text : ∀ {n data}, d.kind? n = some (.text data) → d.children n = []
  children_of_comment : ∀ {n data}, d.kind? n = some (.comment data) → d.children n = []

theorem takeWhile_ne (hxs : xs.Nodup) (hi : xs[i]? = some n) :
    xs.takeWhile (· ≠ n) = xs.take i ∧ xs.dropWhile (· ≠ n) = xs.drop i := by
  induction xs generalizing i with
  | nil => cases hi
  | cons x xs ih =>
    obtain ⟨hx, hnodup⟩ := List.nodup_cons.1 hxs
    cases i with
    | zero =>
      obtain rfl : x = n := by simpa using hi
      simp
    | succ i =>
      rw [List.getElem?_cons_succ] at hi
      have hne : x ≠ n := fun heq => hx (heq ▸ List.mem_of_getElem? hi)
      obtain ⟨htake, hdrop⟩ := ih hnodup hi
      constructor
      · rw [List.takeWhile_cons_of_pos (by simpa using hne), htake, List.take_succ_cons]
      · rw [List.dropWhile_cons_of_pos (by simpa using hne), hdrop, List.drop_succ_cons]

theorem WellFormed.brood_of_getElem? (h : d.WellFormed) (hn : (d.children p)[i]? = some n) :
    d.brood n = d.children p := by
  rw [brood, h.parent?_eq_some_iff.2 (List.mem_of_getElem? hn)]

theorem WellFormed.orderedForest (h : d.WellFormed) : d.OrderedForest where
  eq_of_mem_children hp hq :=
    Option.some.inj ((h.parent?_eq_some_iff.2 hp).symm.trans (h.parent?_eq_some_iff.2 hq))
  parent?_eq_some_iff := h.parent?_eq_some_iff
  count_children hp := List.count_eq_one_of_mem (h.nodup_children _) (h.parent?_eq_some_iff.1 hp)
  firstChild?_eq _ := List.head?_eq_getElem?
  lastChild?_eq _ := List.getLast?_eq_getElem?
  preceding_eq {n p i} hn := by
    rw [preceding, h.brood_of_getElem? hn, (takeWhile_ne (h.nodup_children p) hn).1]
  following_eq {n p i} hn := by
    rw [following, h.brood_of_getElem? hn, (takeWhile_ne (h.nodup_children p) hn).2, List.tail_drop]
  siblings_of_parent?_eq_none hn := by
    rw [preceding, following, brood, hn]
    exact ⟨rfl, rfl⟩
  not_isWithin_self := h.not_isWithin_self
  children_of_text hkind := h.children_of_isLeaf (by rw [isLeaf, hkind]; rfl)
  children_of_comment hkind := h.children_of_isLeaf (by rw [isLeaf, hkind]; rfl)

theorem WellFormed.following_of_children (h : d.WellFormed) {left right : List NodeId}
    (hp : d.children p = left ++ n :: right) : d.following n = right := by
  have hat : (d.children p)[left.length]? = some n := by simp [hp]
  rw [h.orderedForest.following_eq hat, hp]
  simp

theorem WellFormed.preceding_of_children (h : d.WellFormed) {left right : List NodeId}
    (hp : d.children p = left ++ n :: right) : d.preceding n = left.reverse := by
  have hat : (d.children p)[left.length]? = some n := by simp [hp]
  rw [h.orderedForest.preceding_eq hat, hp, List.take_left]

end DomQuery.Document
