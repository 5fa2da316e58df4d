import DomQuery.Proofs.Document.Preorder

/-!
Document order is strict, and it compares any two nodes of one tree.
-/
namespace DomQuery.Document
variable {d : Document} {n m p r a b x y : NodeId} {xs : List NodeId}

theorem not_sublist_swap (hxs : xs.Nodup) (hxy : [x, y].Sublist xs) : ¬ [y, x].Sublist xs := by
  intro hyx
  induction xs with
  | nil => exact absurd hxy (by simp)
  | cons z rest ih =>
    obtain ⟨hz, hrest⟩ := List.nodup_cons.1 hxs
    cases hxy with
    | cons _ hxy =>
      cases hyx with
      | cons _ hyx => exact ih hrest hxy hyx
      | cons_cons _ hx => exact hz (hxy.subset (by simp))
    | cons_cons _ hy =>
      cases hyx with
      | cons _ hyx => exact hz (hyx.subset (by simp))
      | cons_cons _ hx => exact hz (hy.subset (by simp))

theorem pair_sublist_or (hx : x ∈ xs) (hy : y ∈ xs) (hne : x ≠ y) :
    [x, y].Sublist xs ∨ [y, x].Sublist xs := by
  obtain ⟨before, after, rfl⟩ := List.append_of_mem hx
  rcases List.mem_append.1 hy with hy | hy
  · exact .inr (.append (List.singleton_sublist.2 hy) (List.singleton_sublist.2 List.mem_cons_self))
  · have hy := (List.mem_cons.1 hy).resolve_left (Ne.symm hne)
    exact .inl (((List.singleton_sublist.2 hy).cons_cons x).trans (List.sublist_append_right ..))

theorem top_of_parent?_eq_none (hn : d.parent? n = none) : d.top n = n := by
  rw [top, ancestors_of_parent?_eq_none hn]
  rfl

namespace WellFormed
variable (h : d.WellFormed)
include h

theorem not_liesIn_of_liesIn (hxy : [x, y].Sublist (d.children p)) (hax : d.LiesIn a x) :
    ¬ d.LiesIn a y := by
  intro hay
  have hx : x ∈ d.children p := hxy.subset (by simp)
  have hy : y ∈ d.children p := hxy.subset (by simp)
  exact h.ne_of_sublist_children hxy (h.eq_of_liesIn_children hx hy hax hay)

theorem liesIn_of_sublist_children (hxy : [x, y].Sublist (d.children p)) (hax : d.LiesIn a x)
    (hby : d.LiesIn b y) : d.LiesIn a p ∧ d.LiesIn b p :=
  ⟨hax.trans (.inr (h.isWithin_of_mem_children (hxy.subset (by simp)))),
    hby.trans (.inr (h.isWithin_of_mem_children (hxy.subset (by simp))))⟩

theorem not_isWithin_of_apart {u v q : NodeId} (hap : d.LiesIn a p) (hbp : d.LiesIn b p)
    (huv : [u, v].Sublist (d.children q) ∨ [v, u].Sublist (d.children q)) (hau : d.LiesIn a u)
    (hbv : d.LiesIn b v) : ¬ d.isWithin p q := by
  intro hpq
  obtain ⟨c, hc, hpc⟩ := isWithin_iff_exists_liesIn.1 hpq
  have hcq := h.parent?_eq_some_iff.1 hc
  cases huv with
  | inl huv =>
    obtain rfl := h.eq_of_liesIn_children (huv.subset (by simp)) hcq hau (hap.trans hpc)
    exact h.not_liesIn_of_liesIn huv (hbp.trans hpc) hbv
  | inr hvu =>
    obtain rfl := h.eq_of_liesIn_children (hvu.subset (by simp)) hcq hbv (hbp.trans hpc)
    exact h.not_liesIn_of_liesIn hvu (hap.trans hpc) hau

theorem precedes_asymm (hab : d.Precedes a b) : ¬ d.Precedes b a := by
  intro hba
  cases hab with
  | above hwithin =>
    cases hba with
    | above hwithin' => exact h.not_isWithin_of_isWithin hwithin hwithin'
    | beside hyx hby hax => exact h.not_liesIn_of_liesIn hyx hby (.trans (.inr hwithin) hax)
  | @beside p x y hxy hax hby =>
    cases hba with
    | above hwithin => exact h.not_liesIn_of_liesIn hxy hax (.trans (.inr hwithin) hby)
    | @beside q v u hvu hbv hau =>
      obtain ⟨hap, hbp⟩ := h.liesIn_of_sublist_children hxy hax hby
      obtain ⟨hbq, haq⟩ := h.liesIn_of_sublist_children hvu hbv hau
      -- both times it is the same node whose children keep the two apart
      have hpq : p = q := by
        rcases liesIn_total hap haq with (he | hpq) | (he | hqp)
        · exact he
        · exact absurd hpq (h.not_isWithin_of_apart hap hbp (.inr hvu) hau hbv)
        · exact he.symm
        · exact absurd hqp (h.not_isWithin_of_apart haq hbq (.inl hxy) hax hby)
      subst hpq
      have hux := h.eq_of_liesIn_children (hvu.subset (by simp)) (hxy.subset (by simp)) hau hax
      have hvy := h.eq_of_liesIn_children (hvu.subset (by simp)) (hxy.subset (by simp)) hbv hby
      subst hux hvy
      exact not_sublist_swap (h.nodup_children p) hxy hvu

theorem precedes_total (ha : d.LiesIn a r) (hb : d.LiesIn b r) :
    a = b ∨ d.Precedes a b ∨ d.Precedes b a := by
  induction r using h.descend with
  | step r ih =>
    obtain rfl | ha := ha
    · exact hb.imp Eq.symm fun hb => .inl (.above hb)
    obtain rfl | hb := hb
    · exact .inr (.inr (.above ha))
    obtain ⟨x, hx, hax⟩ := isWithin_iff_exists_liesIn.1 ha
    obtain ⟨y, hy, hby⟩ := isWithin_iff_exists_liesIn.1 hb
    rw [h.parent?_eq_some_iff] at hx hy
    by_cases hxy : x = y
    · exact ih x hx hax (hxy ▸ hby)
    · obtain hxy | hyx := pair_sublist_or hx hy hxy
      · exact .inr (.inl (.beside hxy hax hby))
      · exact .inr (.inr (.beside hyx hby hax))

/-! The root of a tree. -/

theorem top_of_parent? (hp : d.parent? n = some p) : d.top n = d.top p := by
  rw [top, top, h.ancestors_of_parent? hp, List.getLastD_cons]

theorem top_of_liesIn (hn : d.LiesIn n a) : d.top n = d.top a := by
  induction liesIn_iff.1 hn using Relation.ReflTransGen.head_induction_on with
  | refl => rfl
  | head hp hq ih => exact (h.top_of_parent? hp).trans (ih (liesIn_iff.2 hq))

theorem liesIn_top (n : NodeId) : d.LiesIn n (d.top n) := by
  induction n using h.ascend with
  | step n ih =>
    cases hp : d.parent? n with
    | none =>
      rw [top_of_parent?_eq_none hp]
      exact .inl rfl
    | some p =>
      have hwithin := isWithin_of_parent? hp
      rw [h.top_of_parent? hp]
      exact .trans (.inr hwithin) (ih p hwithin)

theorem parent?_top (n : NodeId) : d.parent? (d.top n) = none := by
  induction n using h.ascend with
  | step n ih =>
    cases hp : d.parent? n with
    | none => rw [top_of_parent?_eq_none hp, hp]
    | some p =>
      rw [h.top_of_parent? hp]
      exact ih p (isWithin_of_parent? hp)

theorem top_eq_of_liesIn {t : NodeId} (hn : d.LiesIn n t) (ht : d.parent? t = none) : d.top n = t := by
  rw [h.top_of_liesIn hn, top_of_parent?_eq_none ht]

end WellFormed
end DomQuery.Document
