import DomQuery.Proofs.Document.Planting
import DomQuery.Proofs.Document.Resettlement

/-!
Placing several nodes. All that is placed at one target gets one parent, which the target or its own
parent is; what is refused stays where it was.
-/
namespace DomQuery
variable {d d' : Document} {S M : NodeId → Prop} {n m p target : NodeId} {spot : Spot}
  {way : Place} {ns originals targets : List NodeId}

namespace Document

theorem WellFormed.parent?_of_mem_following (h : d.WellFormed) (hm : m ∈ d.following n) :
    d.parent? m = d.parent? n := by
  have hbrood := (List.dropWhile_sublist _).subset (List.mem_of_mem_tail hm)
  rw [brood] at hbrood
  split at hbrood
  · rename_i p hp
    rw [hp, h.parent?_eq_some_iff]
    exact hbrood
  · cases hbrood

end Document

namespace Place

theorem parent?_frontOf {child : Option NodeId}
    (h : ∀ c, child = some c → d.parent? c = some target) :
    (frontOf target child).parent? d = some target := by
  cases child with
  | none => rfl
  | some c => exact h c rfl

theorem parent?_spot (h : d.WellFormed) (hp : (way.spot d target).parent? d = some p) :
    p = target ∧ way.isBeside = false ∨ d.parent? target = some p ∧ way.isBeside = true := by
  have hfront : (frontOf target (d.firstChild? target)).parent? d = some target := by
    refine parent?_frontOf fun c hc => h.parent?_eq_some_iff.2 ?_
    exact List.mem_of_mem_head? (Option.mem_def.2 hc)
  cases way with
  | append => exact .inl ⟨(Option.some.inj hp).symm, rfl⟩
  | prepend => exact .inl ⟨(Option.some.inj (hfront.symm.trans hp)).symm, rfl⟩
  | before => exact .inr ⟨hp, rfl⟩
  | after => exact .inr ⟨hp, rfl⟩

theorem parent?_nextSpot (h : (d.put spot n).WellFormed) (hn : d.isAllocated n)
    (hp : spot.parent? d = some p) (hinside : way = .prepend → p = target) :
    (way.nextSpot (d.put spot n) target n spot).parent? (d.put spot n) = some p := by
  have hparent := Document.parent?_put hn hp
  have hplaced : (d.put spot n).parent? n = some p := (hparent n).trans (if_pos rfl)
  have hsame : spot.parent? (d.put spot n) = some p := by
    cases spot with
    | firstIn q => exact hp
    | lastIn q => exact hp
    | before s =>
      rw [Spot.parent?, hparent]
      split
      · rfl
      · exact hp
    | after s =>
      rw [Spot.parent?, hparent]
      split
      · rfl
      · exact hp
  cases way with
  | append => exact hsame
  | before => exact hsame
  | after => exact hplaced
  | prepend =>
    rw [nextSpot]
    split
    · obtain rfl := hinside rfl
      refine parent?_frontOf fun c hc => ?_
      rw [h.parent?_of_mem_following (List.mem_of_mem_head? (Option.mem_def.2 hc)), hplaced]
    · exact hsame

end Place

namespace Document

theorem placeFrom_of_parent?_eq_none (hspot : spot.parent? d = none) (ns : List NodeId) :
    d.placeFrom way target spot ns = (d, []) := by
  induction ns with
  | nil => rfl
  | cons n ns ih =>
    have hrefused : (d.refusal? spot n).isSome := by
      rw [refusal?, hspot]
      rfl
    rw [placeFrom, if_pos hrefused, ih]

theorem WellFormed.placeFrom (h : d.WellFormed) (hns : ∀ n ∈ ns, d.isAllocated n ∧ M n)
    (hp : spot.parent? d = some p) (hallocated : d.isAllocated p) (hS : ¬ S p)
    (hinside : way = .prepend → p = target) :
    d.Moves S M (d.placeFrom way target spot ns).1 ∧
      ∀ n ∈ (d.placeFrom way target spot ns).2,
        n ∈ ns ∧ (d.placeFrom way target spot ns).1.parent? n = some p := by
  -- the same with what is needed for the step: nodes that stand below `p` stay there
  suffices hall : d.Moves S M (d.placeFrom way target spot ns).1 ∧
      (∀ n, d.parent? n = some p → (d.placeFrom way target spot ns).1.parent? n = some p) ∧
      ∀ n ∈ (d.placeFrom way target spot ns).2,
        n ∈ ns ∧ (d.placeFrom way target spot ns).1.parent? n = some p from
    ⟨hall.1, hall.2.2⟩
  induction ns generalizing d spot with
  | nil => exact ⟨.refl h, fun _ => id, nofun⟩
  | cons n ns ih =>
    obtain ⟨hn, hM⟩ := hns n List.mem_cons_self
    rw [Document.placeFrom]
    split
    · obtain ⟨hmoves, hstay, hplaced⟩ :=
        ih h (fun m hm => hns m (List.mem_cons_of_mem n hm)) hp hallocated
      exact ⟨hmoves, hstay, fun m hm => (hplaced m hm).imp_left (List.mem_cons_of_mem n)⟩
    · rename_i haccepted
      have hput := Moves.of_put (S := S) (M := M) h hn hp hallocated
        (Option.not_isSome_iff_eq_none.1 haccepted) hM hS
      have hparent := parent?_put hn hp
      have hnext := Place.parent?_nextSpot hput.wellFormed hn hp hinside
      obtain ⟨hmoves, hstay, hplaced⟩ := ih hput.wellFormed (fun m hm =>
        (hns m (List.mem_cons_of_mem n hm)).imp_left hput.isAllocated) hnext
        (hput.isAllocated hallocated)
      refine ⟨hput.trans hmoves, fun m hm => hstay m ?_, fun m hm => ?_⟩
      · rw [hparent]
        split
        · rfl
        · exact hm
      · cases List.mem_cons.1 hm with
        | inl heq =>
          subst heq
          exact ⟨List.mem_cons_self, hstay m ((hparent m).trans (if_pos rfl))⟩
        | inr hm => exact (hplaced m hm).imp_left (List.mem_cons_of_mem n)

/-! The set `S` is sealed, and no target is in it. -/

section Handing
variable (hS : ∀ n, S n → n < d.fresh) (hM : ∀ n, d.fresh ≤ n → M n)

theorem WellFormed.place (h : d.WellFormed) (way : Place) (hsealed : d.Sealed S)
    (hns : ∀ n ∈ ns, d.isAllocated n ∧ M n) (htarget : d.isAllocated target ∧ ¬ S target) :
    d.Moves S M (d.place way target ns).1 ∧
      ∀ n ∈ (d.place way target ns).2, n ∈ ns ∧
        ∃ p, (d.place way target ns).1.parent? n = some p ∧ ¬ S p := by
  rw [Document.place]
  cases hp : (way.spot d target).parent? d with
  | none =>
    rw [placeFrom_of_parent?_eq_none hp]
    exact ⟨.refl h, nofun⟩
  | some p =>
    have hout : d.isAllocated p ∧ ¬ S p := by
      rcases Place.parent?_spot h hp with ⟨rfl, -⟩ | ⟨hparent, -⟩
      · exact htarget
      · exact ⟨h.isAllocated_parent hparent, fun hin => htarget.2 (hsealed target p hparent hin)⟩
    have hinside (hprepend : way = .prepend) : p = target := by
      subst hprepend
      rcases Place.parent?_spot h hp with ⟨heq, -⟩ | ⟨-, hbeside⟩
      · exact heq
      · cases hbeside
    obtain ⟨hmoves, hplaced⟩ := h.placeFrom hns hp hout.1 hout.2 hinside
    exact ⟨hmoves, fun n hn => (hplaced n hn).imp_right fun hparent => ⟨p, hparent, hout.2⟩⟩

include hS hM

theorem WellFormed.placeCopies (h : d.WellFormed) (way : Place) (originals : List NodeId)
    (hsealed : d.Sealed S) (htargets : ∀ t ∈ targets, d.isAllocated t ∧ ¬ S t) :
    d.Moves S M (d.placeCopies way originals targets).1 ∧
      ∀ n ∈ (d.placeCopies way originals targets).2,
        (d.placeCopies way originals targets).1.isAllocated n ∧
        ∃ p, (d.placeCopies way originals targets).1.parent? n = some p ∧ ¬ S p := by
  induction targets generalizing d with
  | nil => exact ⟨.refl h, nofun⟩
  | cons t targets ih =>
    have hadds := h.adds_copyAll originals
    have hnew (n : NodeId) (hn : d.fresh ≤ n) : M n ∧ ¬ S n :=
      ⟨hM n hn, fun hin => Nat.not_lt_of_le hn (hS n hin)⟩
    have hcopy : d.Moves S M (d.copyAll originals).1 := .of_adds hadds hnew
    have hold {n : NodeId} (hn : S n) : n < (d.copyAll originals).1.fresh :=
      Nat.lt_of_lt_of_le (hS n hn) hcopy.fresh_le
    obtain ⟨hmoves, hplaced⟩ := hcopy.wellFormed.place way (hcopy.sealed hsealed)
      (fun n hn => (hadds.of_mem n hn).symm.imp_right (hM n))
      ((htargets t List.mem_cons_self).imp_left hcopy.isAllocated)
    have hboth := hcopy.trans hmoves
    obtain ⟨hrest, hmore⟩ := ih (fun n hn => Nat.lt_of_lt_of_le (hS n hn) hboth.fresh_le)
      (fun n hn => hM n (Nat.le_trans hboth.fresh_le hn)) hmoves.wellFormed (hboth.sealed hsealed)
      fun t ht => (htargets t (List.mem_cons_of_mem _ ht)).imp_left hboth.isAllocated
    rw [Document.placeCopies]
    refine ⟨hboth.trans hrest, fun n hn => ?_⟩
    cases List.mem_append.1 hn with
    | inl hn =>
      obtain ⟨hcopied, hparent⟩ := hplaced n hn
      exact ⟨hrest.isAllocated (hmoves.isAllocated (hadds.of_mem n hcopied).2), hrest.outside hparent⟩
    | inr hn => exact hmore n hn

/-- Whatever is placed is a node, and new or below a parent that is not in the set. -/
theorem WellFormed.distribute (h : d.WellFormed) (way : Place) (hsealed : d.Sealed S)
    (horiginals : ∀ n ∈ originals, d.isAllocated n ∧ M n)
    (htargets : ∀ t ∈ targets, d.isAllocated t ∧ ¬ S t) :
    d.Moves S M (d.distribute way targets originals).1 ∧
      ∀ n ∈ (d.distribute way targets originals).2,
        (d.distribute way targets originals).1.isAllocated n ∧
        (d.distribute way targets originals).1.Free S n := by
  cases targets with
  | nil => exact ⟨.refl h, nofun⟩
  | cons first rest =>
    obtain ⟨hmoves, hplaced⟩ := h.place way hsealed horiginals
      (htargets first List.mem_cons_self)
    obtain ⟨hrest, hmore⟩ := hmoves.wellFormed.placeCopies
      (fun n hn => Nat.lt_of_lt_of_le (hS n hn) hmoves.fresh_le)
      (fun n hn => hM n (Nat.le_trans hmoves.fresh_le hn)) way originals (hmoves.sealed hsealed)
      fun t ht => (htargets t (List.mem_cons_of_mem first ht)).imp_left hmoves.isAllocated
    have hboth := hmoves.trans hrest
    have hall (n : NodeId) (hn : n ∈ (d.place way first originals).2 ++
        ((d.place way first originals).1.placeCopies way originals rest).2) :
        ((d.place way first originals).1.placeCopies way originals rest).1.isAllocated n ∧
        ((d.place way first originals).1.placeCopies way originals rest).1.Free S n := by
      cases List.mem_append.1 hn with
      | inl hn =>
        obtain ⟨horiginal, hparent⟩ := hplaced n hn
        exact ⟨hboth.isAllocated (horiginals n horiginal).1, .inr (hrest.outside hparent)⟩
      | inr hn => exact (hmore n hn).imp_right .inr
    simp only [Document.distribute]
    split
    · exact ⟨hboth.adoptTopLevel hall, hall⟩
    · exact ⟨hboth, hall⟩

end Handing
end Document
end DomQuery
