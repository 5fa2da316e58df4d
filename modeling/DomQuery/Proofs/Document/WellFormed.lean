import DomQuery.Proofs.Document.Ancestry

/-!
Well-formed documents: the links make up an ordered forest, and texts and comments are its leaves.
Walks up end, and so do walks down, which gives both directions an induction.
-/
namespace DomQuery.Document
variable {d : Document} {n m p a c : NodeId}

structure WellFormed (d : Document) : Prop where
  /-- Parents and children record the same links. -/
  parent?_eq_some_iff : ∀ {n p}, d.parent? n = some p ↔ n ∈ d.children p
  nodup_children : ∀ p, (d.children p).Nodup
  /-- No node is its own ancestor. -/
  not_isWithin_self : ∀ n, ¬ d.isWithin n n
  children_of_isLeaf : ∀ {n}, d.isLeaf n → d.children n = []

theorem lt_size_of_mem_children (h : c ∈ d.children p) : p < d.slots.size := by
  cases hp : d.node? p with
  | none => simp [children, hp] at h
  | some node => exact lt_size_of_node? hp

theorem lt_size_of_isLeaf (h : d.isLeaf n) : n < d.slots.size := by
  cases hn : d.node? n with
  | none => simp [isLeaf, kind?, hn] at h
  | some node => exact lt_size_of_node? hn

instance : Decidable d.WellFormed :=
  decidable_of_iff
    ((∀ n < d.slots.size, ∀ p ∈ d.parent? n, n ∈ d.children p) ∧
      ∀ p < d.slots.size, (∀ n ∈ d.children p, d.parent? n = some p) ∧ (d.children p).Nodup ∧
        ¬ d.isWithin p p ∧ (d.isLeaf p → d.children p = [])) <| by
    constructor
    · rintro ⟨up, down⟩
      refine ⟨⟨fun hp => up _ (lt_size_of_parent? hp) _ hp, fun hc =>
        (down _ (lt_size_of_mem_children hc)).1 _ hc⟩, fun p => ?_, fun n hn => ?_, fun hl =>
        (down _ (lt_size_of_isLeaf hl)).2.2.2 hl⟩
      · by_cases hp : p < d.slots.size
        · exact (down p hp).2.1
        · have hnil : d.children p = [] :=
            List.eq_nil_iff_forall_not_mem.2 fun c hc => hp (lt_size_of_mem_children hc)
          rw [hnil]
          exact List.nodup_nil
      · obtain ⟨p, hp⟩ := exists_parent?_of_isWithin hn
        exact (down n (lt_size_of_parent? hp)).2.2.1 hn
    · intro h
      exact ⟨fun n _ p hp => h.parent?_eq_some_iff.1 hp, fun p _ => ⟨fun n hn =>
        h.parent?_eq_some_iff.2 hn, h.nodup_children p, h.not_isWithin_self p,
        h.children_of_isLeaf⟩⟩

/-! Places in a tree. -/

/-- The node is the root of the subtree or below it. -/
def LiesIn (d : Document) (n root : NodeId) : Prop := n = root ∨ d.isWithin n root

instance (d : Document) (n root : NodeId) : Decidable (d.LiesIn n root) :=
  inferInstanceAs (Decidable (n = root ∨ d.isWithin n root))

theorem liesIn_iff : d.LiesIn n a ↔ Relation.ReflTransGen (Climb.Step d.parent?) n a := by
  rw [LiesIn, isWithin_iff, Relation.reflTransGen_iff_eq_or_transGen, eq_comm]

theorem LiesIn.trans (h : d.LiesIn n m) (h' : d.LiesIn m a) : d.LiesIn n a :=
  liesIn_iff.2 ((liesIn_iff.1 h).trans (liesIn_iff.1 h'))

theorem isWithin_iff_exists_liesIn :
    d.isWithin n a ↔ ∃ c, d.parent? c = some a ∧ d.LiesIn n c := by
  rw [isWithin_iff, Relation.TransGen.tail'_iff]
  simp only [liesIn_iff, Climb.Step, and_comm]

theorem liesIn_total (h : d.LiesIn n m) (h' : d.LiesIn n a) : d.LiesIn m a ∨ d.LiesIn a m := by
  have hunique : Relator.RightUnique (Climb.Step d.parent?) := fun _ _ _ hb hc =>
    Option.some.inj (hb.symm.trans hc)
  have ht := Relation.ReflTransGen.total_of_right_unique hunique (liesIn_iff.1 h) (liesIn_iff.1 h')
  exact ht.imp liesIn_iff.2 liesIn_iff.2

namespace WellFormed
variable (h : d.WellFormed)
include h

theorem isWithin_of_mem_children (hc : c ∈ d.children p) : d.isWithin c p :=
  isWithin_of_parent? (h.parent?_eq_some_iff.2 hc)

theorem not_isWithin_of_isWithin (hn : d.isWithin n a) : ¬ d.isWithin a n :=
  fun ha => h.not_isWithin_self n (isWithin_trans hn ha)

theorem lt_size_of_isWithin (hn : d.isWithin n a) : a < d.slots.size := by
  obtain ⟨c, hc, -⟩ := isWithin_iff_exists_liesIn.1 hn
  exact lt_size_of_mem_children (h.parent?_eq_some_iff.1 hc)

theorem nodup_trail (bound : Nat) (n : NodeId) : (n :: Climb.trail d.parent? bound n).Nodup := by
  have hself (bound : Nat) (n : NodeId) : n ∉ Climb.trail d.parent? bound n := by
    intro hn
    obtain ⟨k, -, hk⟩ := (Climb.mem_trail n).1 hn
    exact h.not_isWithin_self n (isWithin_iff.2 (Climb.transGen_of_after hk))
  refine List.nodup_cons.2 ⟨hself bound n, ?_⟩
  induction bound generalizing n with
  | zero => exact List.nodup_nil
  | succ bound ih =>
    rw [Climb.trail]
    cases d.parent? n with
    | none => exact List.nodup_nil
    | some p => exact List.nodup_cons.2 ⟨hself bound p, ih p⟩

theorem length_ancestors_lt (hpos : 0 < d.slots.size) : (d.ancestors n).length < d.slots.size := by
  cases hn : d.parent? n with
  | none =>
    have hnil : d.ancestors n = [] := ancestors_of_parent?_eq_none hn
    rw [hnil]
    exact hpos
  | some p =>
    have hnodup : (n :: d.ancestors n).Nodup := by
      rw [ancestors_eq_trail]
      exact h.nodup_trail _ n
    have hsub : n :: d.ancestors n ⊆ List.range d.slots.size := by
      intro a ha
      rw [List.mem_range]
      cases List.mem_cons.1 ha with
      | inl heq =>
        subst heq
        exact lt_size_of_parent? hn
      | inr ha => exact h.lt_size_of_isWithin (isWithin_iff.2 (mem_ancestors_iff.1 ha))
    have hle := (List.subperm_of_subset hnodup hsub).length_le
    rw [List.length_cons, List.length_range] at hle
    exact hle

theorem ancestors_of_parent? (hp : d.parent? n = some p) : d.ancestors n = p :: d.ancestors p := by
  have hpos := Nat.zero_lt_of_lt (lt_size_of_parent? hp)
  have hsize := h.length_ancestors_lt (n := p) hpos
  obtain ⟨bound, hb⟩ := Nat.exists_eq_add_one.2 hpos
  have hcut : Climb.trail d.parent? bound p = Climb.trail d.parent? (bound + 1) p := by
    rw [ancestors_eq_trail, hb] at hsize
    exact Climb.trail_eq_of_length_lt hsize
  rw [ancestors_eq_trail, ancestors_eq_trail, hb, ← hcut, Climb.trail, hp]

theorem length_ancestors_lt_of_isWithin (hn : d.isWithin n a) :
    (d.ancestors a).length < (d.ancestors n).length := by
  induction isWithin_iff.1 hn using Relation.TransGen.head_induction_on with
  | single hp =>
    rw [h.ancestors_of_parent? hp]
    exact Nat.lt_succ_self _
  | head hp hq ih =>
    rw [h.ancestors_of_parent? hp]
    exact Nat.lt_succ_of_lt (ih (isWithin_iff.2 hq))

/-- Induction from a node to all below it. -/
theorem descend {motive : NodeId → Prop}
    (step : ∀ n, (∀ c ∈ d.children n, motive c) → motive n) (n : NodeId) : motive n := by
  induction hk : d.slots.size - (d.ancestors n).length using Nat.strong_induction_on generalizing n with
  | _ k ih =>
    refine step n fun c hc => ih _ ?_ c rfl
    have hp := h.parent?_eq_some_iff.2 hc
    have hlt := h.length_ancestors_lt (n := c) (Nat.zero_lt_of_lt (lt_size_of_parent? hp))
    rw [h.ancestors_of_parent? hp, List.length_cons] at hlt ⊢
    omega

/-- Induction from a node to all above it. -/
theorem ascend {motive : NodeId → Prop}
    (step : ∀ n, (∀ a, d.isWithin n a → motive a) → motive n) (n : NodeId) : motive n := by
  induction hk : (d.ancestors n).length using Nat.strong_induction_on generalizing n with
  | _ k ih => exact step n fun a ha => ih _ (hk ▸ h.length_ancestors_lt_of_isWithin ha) a rfl

end WellFormed
end DomQuery.Document
