import DomQuery.Document.Walk
import Mathlib.Data.Fintype.Card
import Mathlib.Logic.Relation

/-!
Climbing. A walk up a document is cut off after as many steps as there are slots. Nothing is lost by
that, in no document: a walk that comes back to a node meets nothing new.
-/
namespace DomQuery.Climb
variable {next : NodeId → Option NodeId} {a b : NodeId} {i j k bound size : Nat}

def Step (next : NodeId → Option NodeId) (a b : NodeId) : Prop := next a = some b

def after (next : NodeId → Option NodeId) : Nat → NodeId → Option NodeId
  | 0, n => some n
  | k + 1, n => (next n).bind (after next k)

def trail (next : NodeId → Option NodeId) : Nat → NodeId → List NodeId
  | 0, _ => []
  | bound + 1, n =>
    match next n with
    | none => []
    | some m => m :: trail next bound m

theorem after_add (a : NodeId) : after next (i + j) a = (after next i a).bind (after next j) := by
  induction i generalizing a with
  | zero => rw [Nat.zero_add]; rfl
  | succ i ih =>
    rw [Nat.succ_add]
    cases h : next a with
    | none => simp [after, h]
    | some m => simp [after, h, ih]

theorem mem_trail (a : NodeId) : b ∈ trail next bound a ↔ ∃ k < bound, after next (k + 1) a = some b := by
  induction bound generalizing a with
  | zero => simp [trail]
  | succ bound ih =>
    cases h : next a with
    | none => simp [trail, after, h]
    | some m =>
      simp only [trail, h, List.mem_cons, ih]
      constructor
      · rintro (rfl | ⟨k, hk, hb⟩)
        · exact ⟨0, Nat.succ_pos bound, by simp [after, h]⟩
        · exact ⟨k + 1, Nat.succ_lt_succ hk, by rw [after, h]; exact hb⟩
      · rintro ⟨k, hk, hb⟩
        cases k with
        | zero => exact .inl (by simpa [after, h] using hb.symm)
        | succ k => exact .inr ⟨k, Nat.lt_of_succ_lt_succ hk, by rw [after, h] at hb; exact hb⟩

theorem transGen_of_after (hk : after next (k + 1) a = some b) :
    Relation.TransGen (Step next) a b := by
  induction k generalizing a with
  | zero =>
    obtain ⟨m, hm, rfl⟩ : ∃ m, next a = some m ∧ m = b := by simpa [after] using hk
    exact .single hm
  | succ k ih =>
    obtain ⟨m, hm, hb⟩ : ∃ m, next a = some m ∧ after next (k + 1) m = some b := by
      rw [after] at hk
      exact Option.bind_eq_some_iff.1 hk
    exact .head hm (ih hb)

theorem after_of_transGen (h : Relation.TransGen (Step next) a b) :
    ∃ k, after next (k + 1) a = some b := by
  induction h using Relation.TransGen.head_induction_on with
  | single h => exact ⟨0, by rw [after, h]; rfl⟩
  | head h _ ih =>
    obtain ⟨k, hk⟩ := ih
    exact ⟨k + 1, by rw [after, h]; exact hk⟩

/-- The shortest walk to a node visits no node twice, so it is no longer than there are nodes to
start a step from. -/
theorem exists_after_lt (hsize : ∀ a b, next a = some b → a < size)
    (h : ∃ k, after next (k + 1) a = some b) : ∃ k < size, after next (k + 1) a = some b := by
  classical
  let k := Nat.find h
  have hk : after next (k + 1) a = some b := Nat.find_spec h
  have hmin (m : Nat) (hm : m < k) : after next (m + 1) a ≠ some b := Nat.find_min h hm
  have visit (i : Fin (k + 1)) : ∃ x, after next i a = some x ∧ x < size ∧
      after next (k + 1 - i) x = some b := by
    have hsum : (i : Nat) + (k + 1 - i) = k + 1 := by omega
    rw [← hsum, after_add] at hk
    obtain ⟨x, hx, hb⟩ := Option.bind_eq_some_iff.1 hk
    have hpos : k + 1 - (i : Nat) = k - i + 1 := by omega
    obtain ⟨y, hy, _⟩ := Option.bind_eq_some_iff.1 (by rw [hpos, after] at hb; exact hb)
    exact ⟨x, hx, hsize x y hy, hb⟩
  choose visited hat hlt hrest using visit
  have hinj : Function.Injective fun i => (⟨visited i, hlt i⟩ : Fin size) := by
    -- a node visited at `i` and again at `j` would leave a shorter walk, without the loop
    have hne (i j : Fin (k + 1)) (hij : i < j) : visited i ≠ visited j := by
      intro he
      have hshort : after next ((i : Nat) + (k + 1 - j)) a = some b := by
        rw [after_add, hat i, Option.bind_some, he]
        exact hrest j
      have hsucc : (i : Nat) + (k + 1 - j) = i + (k - j) + 1 := by omega
      exact hmin (i + (k - j)) (by omega) (hsucc ▸ hshort)
    intro i j h
    have he : visited i = visited j := congrArg Fin.val h
    rcases lt_trichotomy i j with hij | hij | hij
    · exact absurd he (hne i j hij)
    · exact hij
    · exact absurd he.symm (hne j i hij)
  have hcard := Fintype.card_le_of_injective _ hinj
  simp only [Fintype.card_fin] at hcard
  exact ⟨k, hcard, hk⟩

theorem mem_trail_iff (hsize : ∀ a b, next a = some b → a < size) :
    b ∈ trail next size a ↔ Relation.TransGen (Step next) a b := by
  rw [mem_trail]
  constructor
  · rintro ⟨k, -, hk⟩
    exact transGen_of_after hk
  · exact fun h => exists_after_lt hsize (after_of_transGen h)

theorem trail_eq_of_length_lt (h : (trail next (bound + 1) a).length < bound + 1) :
    trail next bound a = trail next (bound + 1) a := by
  induction bound generalizing a with
  | zero => exact (List.length_eq_zero_iff.1 (Nat.lt_one_iff.1 h)).symm
  | succ bound ih =>
    rw [trail] at h ⊢
    cases hm : next a with
    | none => simp [trail, hm]
    | some m =>
      rw [hm] at h
      rw [trail, hm]
      simp only [ih (Nat.lt_of_succ_lt_succ h)]

end Climb

namespace Document
variable {d : Document} {n m p a : NodeId}

theorem lt_size_of_node? {node : Node} (h : d.node? n = some node) : n < d.slots.size := by
  by_contra hn
  rw [node?, Array.getElem?_eq_none (Nat.le_of_not_lt hn)] at h
  exact absurd h (by simp)

theorem lt_size_of_parent? (h : d.parent? n = some p) : n < d.slots.size := by
  obtain ⟨node, hnode, -⟩ := Option.bind_eq_some_iff.1 h
  exact lt_size_of_node? hnode

theorem ancestors_eq_trail : d.ancestors n = Climb.trail d.parent? d.slots.size n := by
  have within (bound : Nat) (n : NodeId) : d.ancestorsWithin bound n = Climb.trail d.parent? bound n := by
    induction bound generalizing n with
    | zero => rfl
    | succ bound ih =>
      rw [ancestorsWithin, Climb.trail]
      cases d.parent? n with
      | none => rfl
      | some p => simp only [ih]
  exact within d.slots.size n

theorem ancestors_of_parent?_eq_none (h : d.parent? n = none) : d.ancestors n = [] := by
  rw [ancestors]
  cases d.slots.size with
  | zero => rfl
  | succ bound => rw [ancestorsWithin, h]

theorem mem_ancestors_iff :
    a ∈ d.ancestors n ↔ Relation.TransGen (Climb.Step d.parent?) n a := by
  rw [ancestors_eq_trail, Climb.mem_trail_iff fun _ _ => lt_size_of_parent?]

theorem isWithin_iff : d.isWithin n a ↔ Relation.TransGen (Climb.Step d.parent?) n a := by
  rw [isWithin, List.contains_iff_mem, mem_ancestors_iff]

theorem isWithin_trans (h : d.isWithin n m) (h' : d.isWithin m a) : d.isWithin n a :=
  isWithin_iff.2 ((isWithin_iff.1 h).trans (isWithin_iff.1 h'))

theorem isWithin_of_parent? (h : d.parent? n = some p) : d.isWithin n p :=
  isWithin_iff.2 (.single h)

theorem isWithin_iff_of_parent? (h : d.parent? n = some p) :
    d.isWithin n a ↔ p = a ∨ d.isWithin p a := by
  constructor
  · intro hn
    obtain ⟨q, hq, hqa⟩ := Relation.TransGen.head'_iff.1 (isWithin_iff.1 hn)
    obtain rfl : p = q := Option.some.inj (h.symm.trans hq)
    cases Relation.reflTransGen_iff_eq_or_transGen.1 hqa with
    | inl he => exact .inl he.symm
    | inr ht => exact .inr (isWithin_iff.2 ht)
  · rintro (rfl | hp)
    · exact isWithin_of_parent? h
    · exact isWithin_trans (isWithin_of_parent? h) hp

theorem exists_parent?_of_isWithin (h : d.isWithin n a) : ∃ p, d.parent? n = some p := by
  obtain ⟨p, hp, -⟩ := Relation.TransGen.head'_iff.1 (isWithin_iff.1 h)
  exact ⟨p, hp⟩

end Document
end DomQuery
