import DomQuery.Proofs.Document.Discard
import DomQuery.Proofs.Document.OrderedForest

/-!
Keeping some of what a container holds. The nodes that are to stay are taken out, the rest below the
container is freed, and they are put back; so they and what they hold are all that is left in it.
-/
namespace DomQuery.Document
variable {d d' : Document} {n m c : NodeId} {ns xs : List NodeId}

/-! Taking nodes out from below the container. -/

section Below
variable (h : d.WellFormed) (hns : ∀ n ∈ ns, d.isWithin n c)
include h hns

theorem WellFormed.not_liesIn_of_below (hn : n ∈ ns) : ¬ d.LiesIn c n := by
  rintro (rfl | hcn)
  · exact h.not_isWithin_self c (hns c hn)
  · exact h.not_isWithin_of_isWithin hcn (hns n hn)

theorem WellFormed.isWithin_foldl_detach : (ns.foldl Document.detach d).isWithin m c ↔
    d.isWithin m c ∧ ∀ n ∈ ns, ¬ d.LiesIn m n := by
  have hparent := parent?_foldl_detach ns d
  have hstep {a b : NodeId} : Climb.Step (ns.foldl Document.detach d).parent? a b ↔
      a ∉ ns ∧ d.parent? a = some b := by
    rw [Climb.Step, hparent]
    by_cases ha : a ∈ ns <;> simp [ha]
  have hlies {a b : NodeId} (hab : d.parent? a = some b) (ha : a ∉ ns)
      (hb : ∀ n ∈ ns, ¬ d.LiesIn b n) : ∀ n ∈ ns, ¬ d.LiesIn a n := by
    rintro n hn (rfl | han)
    · exact ha hn
    · exact hb n hn ((isWithin_iff_of_parent? hab).1 han)
  have hc (n : NodeId) (hn : n ∈ ns) := h.not_liesIn_of_below hns hn
  constructor
  · intro hm
    induction isWithin_iff.1 hm using Relation.TransGen.head_induction_on with
    | single hab =>
      obtain ⟨ha, hab⟩ := hstep.1 hab
      exact ⟨isWithin_of_parent? hab, hlies hab ha hc⟩
    | head hab hbc ih =>
      obtain ⟨ha, hab⟩ := hstep.1 hab
      obtain ⟨hwithin, hb⟩ := ih (isWithin_iff.2 hbc)
      exact ⟨isWithin_trans (isWithin_of_parent? hab) hwithin, hlies hab ha hb⟩
  · rintro ⟨hm, hout⟩
    rw [isWithin_iff]
    induction isWithin_iff.1 hm using Relation.TransGen.head_induction_on with
    | @single a hab => exact .single (hstep.2 ⟨fun ha => hout a ha (.inl rfl), hab⟩)
    | @head a b hab hbc ih =>
      have hb (n : NodeId) (hn : n ∈ ns) : ¬ d.LiesIn b n := fun hbn =>
        hout n hn (.inr ((isWithin_iff_of_parent? hab).2 hbn))
      exact .head (hstep.2 ⟨fun ha => hout a ha (.inl rfl), hab⟩) (ih (isWithin_iff.2 hbc) hb)

end Below

/-! Freeing the rest. -/

/-- When children of a node are freed, everything goes that lies in one of them, and nothing else. -/
theorem WellFormed.foldl_discard (h : d.WellFormed) (hxs : ∀ x ∈ xs, d.parent? x = some c)
    (hnodup : xs.Nodup) : (xs.foldl Document.discard d).WellFormed ∧
      (∀ m p, (xs.foldl Document.discard d).parent? m = some p → d.parent? m = some p) ∧
      (∀ m, (xs.foldl Document.discard d).isAllocated m →
        d.isAllocated m ∧ ∀ x ∈ xs, ¬ d.LiesIn m x) ∧
      ∀ m, (∀ x ∈ xs, ¬ d.LiesIn m x) →
        (xs.foldl Document.discard d).data? m = d.data? m ∧
          (xs.foldl Document.discard d).parent? m = d.parent? m ∧
          (xs.foldl Document.discard d).children m = (d.children m).filter (· ∉ xs) := by
  induction xs generalizing d with
  | nil => exact ⟨h, fun _ _ => id, fun _ hm => ⟨hm, List.forall_mem_nil _⟩,
      fun _ _ => ⟨rfl, rfl, by simp⟩⟩
  | cons x xs ih =>
    obtain ⟨hx, hnodup⟩ := List.nodup_cons.1 hnodup
    have hxc := hxs x List.mem_cons_self
    have hallocated := isAllocated_of_parent? hxc
    have hlinks (m p : NodeId) (hp : (d.discard x).parent? m = some p) : d.parent? m = some p :=
      ((h.parent?_discard_eq_some_iff hallocated).1 hp).1
    have hmono (m y : NodeId) (hm : (d.discard x).LiesIn m y) : d.LiesIn m y :=
      liesIn_iff.2 (Relation.ReflTransGen.mono hlinks m y (liesIn_iff.1 hm))
    have hsiblings (y : NodeId) (hy : y ∈ xs) : ¬ d.LiesIn y x := by
      intro hyx
      have hyc := hxs y (List.mem_cons_of_mem x hy)
      rcases hyx with rfl | hyx
      · exact hx hy
      · have hcx : d.LiesIn c x := (isWithin_iff_of_parent? hyc).1 hyx
        exact h.not_isWithin_self x ((isWithin_iff_of_parent? hxc).2 hcx)
    obtain ⟨hd, hsub, hgone, hkept⟩ := ih (h.discard hallocated) (fun y hy => by
      rw [h.parent?_discard hallocated (hsiblings y hy)]
      exact hxs y (List.mem_cons_of_mem x hy)) hnodup
    refine ⟨hd, fun m p hp => hlinks m p (hsub m p hp), fun m hm => ?_, fun m hm => ?_⟩
    · obtain ⟨hleft, hrest⟩ := hgone m hm
      obtain ⟨hm, hmx⟩ := (h.isAllocated_discard hallocated m).1 hleft
      refine ⟨hm, List.forall_mem_cons.2 ⟨hmx, fun y hy hmy => hrest y hy ?_⟩⟩
      exact (h.liesIn_discard hallocated hmx).2 hmy
    · have hmx := hm x List.mem_cons_self
      obtain ⟨hdata, hparent, hchildren⟩ := hkept m fun y hy hlies =>
        hm y (List.mem_cons_of_mem x hy) (hmono m y hlies)
      refine ⟨hdata.trans (h.data?_discard hallocated hmx),
        hparent.trans (h.parent?_discard hallocated hmx), ?_⟩
      rw [List.foldl_cons, hchildren, h.children_discard hallocated hmx,
        filter_erase (h.nodup_children m)]

/-- Nodes below a container are taken out and the rest below it is freed. Then neither lies in the
other. -/
theorem WellFormed.foldl_discard_foldl_detach (h : d.WellFormed) (hc : d.isAllocated c)
    (hns : ∀ n ∈ ns, d.isWithin n c) {apart bare : Document}
    (hapart : apart = ns.foldl Document.detach d)
    (hbare : bare = (apart.children c).foldl Document.discard apart) :
    bare.WellFormed ∧ bare.data? c = d.data? c ∧ ∀ n ∈ ns, bare.isAllocated n ∧ ¬ bare.LiesIn c n := by
  subst hbare
  have hd : apart.WellFormed := hapart ▸ h.foldl_detach ns
  have hparent (m : NodeId) : apart.parent? m = if m ∈ ns then none else d.parent? m :=
    hapart ▸ parent?_foldl_detach ns d m
  have hlinks (m p : NodeId) (hp : apart.parent? m = some p) : d.parent? m = some p := by
    rw [hparent] at hp
    split at hp
    · cases hp
    · exact hp
  have hkept {m : NodeId} (hm : d.isAllocated m) : apart.data? m = d.data? m :=
    hapart ▸ (extends_foldl_detach ns d).keeps.data? hm
  have hbelow (x : NodeId) (hx : x ∈ apart.children c) : apart.parent? x = some c :=
    hd.parent?_eq_some_iff.2 hx
  obtain ⟨hbare, hsub, -, hleft⟩ := hd.foldl_discard hbelow (hd.nodup_children c)
  refine ⟨hbare, (hleft c fun x hx hcx => ?_).1.trans (hkept hc), fun n hn => ⟨?_, fun hcn => ?_⟩⟩
  · exact hd.not_isWithin_self x ((isWithin_iff_of_parent? (hbelow x hx)).2 hcx)
  · obtain ⟨p, hp⟩ := exists_parent?_of_isWithin (hns n hn)
    have hn' : d.isAllocated n := isAllocated_of_parent? hp
    refine (isAllocated_congr ((hleft n fun x hx hnx => ?_).1.trans (hkept hn'))).2 hn'
    -- a node that was taken out has no parent, so it lies in nothing else
    have hnone : apart.parent? n = none := (hparent n).trans (if_pos hn)
    rcases hnx with rfl | hnx
    · cases hnone.symm.trans (hbelow n hx)
    · obtain ⟨q, hq⟩ := exists_parent?_of_isWithin hnx
      cases hnone.symm.trans hq
  · have hcn : Relation.ReflTransGen (Climb.Step d.parent?) c n :=
      Relation.ReflTransGen.mono (fun a b hab => hlinks a b (hsub a b hab)) c n (liesIn_iff.1 hcn)
    exact h.not_isWithin_self n (isWithin_iff.2 ((isWithin_iff.1 (hns n hn)).trans_left hcn))

/-! Putting them back. -/

theorem WellFormed.foldl_put (h : d.WellFormed) (hc : d.isAllocated c) (hleaf : ¬ d.isLeaf c)
    (hns : ∀ n ∈ ns, d.isAllocated n ∧ ¬ d.LiesIn c n) (hnodup : ns.Nodup) :
    (ns.foldl (fun d n => d.put (.lastIn c) n) d).WellFormed ∧
      (∀ m, (ns.foldl (fun d n => d.put (.lastIn c) n) d).parent? m =
        if m ∈ ns then some c else d.parent? m) ∧
      ∀ m, (ns.foldl (fun d n => d.put (.lastIn c) n) d).children m =
        if m = c then (d.children c).filter (· ∉ ns) ++ ns else (d.children m).filter (· ∉ ns) := by
  induction ns generalizing d with
  | nil =>
    refine ⟨h, fun m => by simp, fun m => ?_⟩
    split
    · rename_i hm
      simp [hm]
    · simp
  | cons n ns ih =>
    obtain ⟨hfirst, hnodup⟩ := List.nodup_cons.1 hnodup
    obtain ⟨hn, hcn⟩ := hns n List.mem_cons_self
    have hmore := extends_put d (.lastIn c) n
    have hparent := parent?_put hn (show (Spot.lastIn c).parent? d = some c from rfl)
    have haccepted : d.refusal? (.lastIn c) n = none :=
      refusal?_eq_none_iff.2 ⟨c, rfl, .inr (accepts_iff.2 ⟨hleaf, hcn⟩)⟩
    have hput := h.put hn (show d.Has (.lastIn c) from hc) haccepted
    have hrest (m : NodeId) (hm : m ∈ ns) : (d.put (.lastIn c) n).isAllocated m ∧
        ¬ (d.put (.lastIn c) n).LiesIn c m := by
      obtain ⟨hallocated, hcm⟩ := hns m (List.mem_cons_of_mem n hm)
      refine ⟨hmore.isAllocated hallocated, fun hlies => hcm (liesIn_iff.2 ?_)⟩
      refine Climb.reach_of_avoids (n := n) (fun x hx => ?_) (fun hreach => hcn (liesIn_iff.2 hreach))
        (liesIn_iff.1 hlies)
      rw [hparent, if_neg hx]
    obtain ⟨hd, hparent', hchildren'⟩ := ih hput (hmore.isAllocated hc)
      (by rwa [isLeaf_congr (data?_put d (.lastIn c) n c)]) hrest hnodup
    have hchildren := h.children_put (show ¬ (Spot.lastIn c).isNextTo n from Bool.false_ne_true)
      (show (Spot.lastIn c).parent? d = some c from rfl) hc
    refine ⟨hd, fun m => ?_, fun m => ?_⟩
    · rw [List.foldl_cons, hparent', hparent]
      by_cases hm : m = n <;> simp [hm]
    · rw [List.foldl_cons, hchildren', hchildren, hchildren, if_pos rfl]
      by_cases hm : m = c
      · rw [if_pos hm, if_pos hm, Spot.insertInto, List.filter_append, filter_erase (h.nodup_children c)]
        simp [hfirst]
      · rw [if_neg hm, if_neg hm, if_neg hm, filter_erase (h.nodup_children m)]

/-- The work on a container and the nodes that it is to keep. -/
def regather (d : Document) (c : NodeId) (ns : List NodeId) : Document :=
  let apart := ns.foldl detach d
  let bare := (apart.children c).foldl discard apart
  ns.foldl (fun d n => d.put (.lastIn c) n) bare

/-- What is below the container and in none of the trees that are kept. -/
def Leftover (d : Document) (c : NodeId) (ns : List NodeId) (m : NodeId) : Prop :=
  d.isWithin m c ∧ ∀ n ∈ ns, ¬ d.LiesIn m n

structure Regathered (d : Document) (c : NodeId) (ns : List NodeId) (d' : Document) : Prop where
  wellFormed : d'.WellFormed
  freed : ∀ m, d.Leftover c ns m → ¬ d'.isAllocated m
  data? : ∀ m, ¬ d.Leftover c ns m → d'.data? m = d.data? m
  parent? : ∀ m, ¬ d.Leftover c ns m → d'.parent? m = if m ∈ ns then some c else d.parent? m
  children_container : d'.children c = ns
  children : ∀ m, ¬ d.Leftover c ns m → m ≠ c → (∀ k ∈ d.children m, k ∉ ns) →
    d'.children m = d.children m
  roots : d'.roots = d.roots
  fresh : d'.fresh = d.fresh

namespace Regathered
variable (hre : d.Regathered c ns d') (h : d.WellFormed)
include hre h

theorem data?_container : d'.data? c = d.data? c :=
  hre.data? c fun hself => h.not_isWithin_self c hself.1

theorem isFragment (hc : d.isFragment c) : d'.isFragment c := by
  rwa [isFragment_congr (hre.data?_container h)]

theorem parent?_container (hns : ∀ n ∈ ns, d.isWithin n c) : d'.parent? c = d.parent? c := by
  rw [hre.parent? c fun hself => h.not_isWithin_self c hself.1, if_neg]
  exact fun hmem => h.not_isWithin_self c (hns c hmem)

end Regathered

theorem foldl_keeps {α : Type} (view : Document → α) {step : Document → NodeId → Document}
    (hstep : ∀ d n, view (step d n) = view d) (ns : List NodeId) (d : Document) :
    view (ns.foldl step d) = view d := by
  induction ns generalizing d with
  | nil => rfl
  | cons n ns ih => rw [List.foldl_cons, ih, hstep]

theorem WellFormed.regathered (h : d.WellFormed) (hc : d.isFragment c)
    (hns : ∀ n ∈ ns, d.isWithin n c) (hnodup : ns.Nodup) : d.Regathered c ns (d.regather c ns) := by
  let apart := ns.foldl Document.detach d
  let bare := (apart.children c).foldl Document.discard apart
  have happart : apart.WellFormed := h.foldl_detach ns
  have hlists (p : NodeId) : apart.children p = (d.children p).filter (· ∉ ns) :=
    h.children_foldl_detach ns p
  have hallocated := isAllocated_of_isFragment hc
  obtain ⟨hbare, hcontainer, hapart⟩ := h.foldl_discard_foldl_detach hallocated hns rfl rfl
  have hleaf : ¬ bare.isLeaf c := by
    rw [isLeaf_congr hcontainer]
    exact not_isLeaf_of_isFragment hc
  obtain ⟨hfull, hparent, hchildren⟩ :=
    hbare.foldl_put ((isAllocated_congr hcontainer).2 hallocated) hleaf hapart hnodup
  -- the leftovers are what the freed children of the container hold
  obtain ⟨-, -, hgone, hleft⟩ := happart.foldl_discard
    (fun x hx => happart.parent?_eq_some_iff.2 hx) (happart.nodup_children c)
  have hleftover (m : NodeId) :
      d.Leftover c ns m ↔ ∃ x ∈ apart.children c, apart.LiesIn m x := by
    rw [Leftover, ← h.isWithin_foldl_detach hns, isWithin_iff_exists_liesIn]
    simp only [happart.parent?_eq_some_iff, apart]
  have hkept {m : NodeId} (hm : ¬ d.Leftover c ns m) := hleft m fun x hx hlies =>
    hm ((hleftover m).2 ⟨x, hx, hlies⟩)
  have hstays : ¬ d.Leftover c ns c := fun hself => h.not_isWithin_self c hself.1
  have hput (m : NodeId) : (d.regather c ns).data? m = bare.data? m :=
    foldl_keeps (·.data? m) (fun d n => data?_put d _ n m) ns bare
  refine ⟨hfull, fun m hm => ?_, fun m hm => ?_, fun m hm => ?_, ?_, fun m hm hne hfree => ?_, ?_, ?_⟩
  · rw [isAllocated_congr (hput m)]
    obtain ⟨x, hx, hlies⟩ := (hleftover m).1 hm
    exact fun hthere => (hgone m hthere).2 x hx hlies
  · rw [hput, (hkept hm).1]
    exact data?_foldl_detach ns d m
  · refine (hparent m).trans ?_
    split
    · rfl
    · rename_i hmem
      rw [(hkept hm).2.1, parent?_foldl_detach, if_neg hmem]
  · refine (hchildren c).trans ?_
    have hnone : (apart.children c).filter (· ∉ apart.children c) = [] := by simp
    rw [if_pos rfl, (hkept hstays).2.2, hnone]
    rfl
  · refine (hchildren m).trans ?_
    have hother (k : NodeId) (hk : k ∈ d.children m) : k ∉ apart.children c := by
      rw [hlists]
      exact fun hkc => hne (h.orderedForest.eq_of_mem_children hk (List.mem_of_mem_filter hkc))
    have hsame : (d.children m).filter (· ∉ ns) = d.children m :=
      List.filter_eq_self.2 fun k hk => decide_eq_true (hfree k hk)
    have hapart : (d.children m).filter (· ∉ apart.children c) = d.children m :=
      List.filter_eq_self.2 fun k hk => decide_eq_true (hother k hk)
    rw [if_neg hne, (hkept hm).2.2, hlists m, hsame, hapart, hsame]
  · calc
      (d.regather c ns).roots = bare.roots := foldl_keeps _ (fun d n => roots_put d _ n) ns bare
      _ = apart.roots := foldl_keeps _ roots_discard _ apart
      _ = d.roots := foldl_keeps _ roots_detach ns d
  · calc
      (d.regather c ns).fresh = bare.fresh := foldl_keeps _ (fun d n => fresh_put d _ n) ns bare
      _ = apart.fresh := foldl_keeps _ fresh_discard _ apart
      _ = d.fresh := fresh_foldl_detach ns d

end DomQuery.Document
