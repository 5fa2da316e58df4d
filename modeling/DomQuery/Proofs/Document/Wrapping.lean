import DomQuery.Document.Wrapping
import DomQuery.Proofs.Document.Planting
import DomQuery.Proofs.Document.Resettlement

/-!
Wrapping. A wrapper is a new tree, so it fits wherever a node has a parent, and what goes into it goes
to a new parent.
-/
namespace DomQuery.Document
variable {d d' : Document} {S : NodeId → Prop} {n m p wrapper first template : NodeId}
  {ns : List NodeId}

theorem WellFormed.liesIn_innermost (h : d.WellFormed) (n : NodeId) :
    d.LiesIn (d.innermost n) n := by
  have hwithin (bound : Nat) (n : NodeId) : d.LiesIn (d.innermostWithin bound n) n := by
    induction bound generalizing n with
    | zero => exact .inl rfl
    | succ bound ih =>
      rw [innermostWithin]
      split
      · rename_i child hchild
        have hmem := List.mem_of_mem_head? (Option.mem_def.2 hchild)
        exact (ih child).trans (.inr (h.isWithin_of_mem_children (List.mem_of_mem_filter hmem)))
      · exact .inl rfl
  exact hwithin d.slots.size n

/-- No link leads into the set or out of it. -/
def Split (S : NodeId → Prop) (d : Document) : Prop := ∀ n p, d.parent? n = some p → (S n ↔ S p)

theorem Split.sealed (h : d.Split S) : d.Sealed S := fun n p hp => (h n p hp).2

theorem Split.iff_of_liesIn (h : d.Split S) (hn : d.LiesIn n m) : S n ↔ S m := by
  induction liesIn_iff.1 hn with
  | refl => exact Iff.rfl
  | @tail a b hreach hstep ih => exact (ih (liesIn_iff.2 hreach)).trans (h a b hstep)

theorem Moves.split (h : d.Moves S (¬ S ·) d') (hd : d.Split S) : d'.Split S := by
  intro n p hp
  rcases h.parent? n with hsame | ⟨hn, q, hq, hout⟩
  · exact hd n p (hsame.symm.trans hp)
  · obtain rfl := Option.some.inj (hq.symm.trans hp)
    exact iff_of_false hn hout

/-! One wrapper. It has just been made, and the set has older nodes only. -/

theorem not_mem_of_fresh_le (hS : ∀ n, S n → n < d.fresh) (hn : d.fresh ≤ n) : ¬ S n :=
  fun hin => Nat.not_lt_of_le hn (hS n hin)

section One
variable (h : d.WellFormed) (hadds : d.Adds d' [wrapper]) (hS : ∀ n, S n → n < d.fresh)
include hadds hS

theorem Adds.moves_wrapper : d.Moves S (¬ S ·) d' :=
  .of_adds hadds fun _ hn => ⟨not_mem_of_fresh_le hS hn, not_mem_of_fresh_le hS hn⟩

omit hS in
theorem Adds.not_liesIn_wrapper (hm : m < d.fresh) : ¬ d'.LiesIn m wrapper := fun hlies =>
  Nat.not_lt_of_le (hadds.grows.le_of_liesIn hlies (hadds.of_mem _ List.mem_cons_self).1) hm

omit hS in
theorem Adds.discard : d.Adds (d'.discard wrapper) [] := by
  classical
  obtain ⟨hle, hwrapper⟩ := hadds.of_mem _ List.mem_cons_self
  have hmore := hadds.wellFormed.extends_discard hwrapper hadds.grows.toExtends
    fun m hm => hadds.grows.le_of_liesIn hm hle
  refine ⟨⟨fun m hm => ?_, hmore.fresh_le, hmore.roots, fun n p hp => ?_⟩,
    hadds.wellFormed.discard hwrapper, nofun⟩
  · have hne {n : NodeId} (hn : d.fresh ≤ n) : m ≠ n := Nat.ne_of_lt (Nat.lt_of_lt_of_le hm hn)
    rw [hadds.wellFormed.node?_discard hwrapper, if_neg (hadds.not_liesIn_wrapper hm), detach]
    split
    · exact hadds.grows.node? m hm
    · rename_i p hp
      rw [node?_modify, if_neg (hne hle), node?_modify, if_neg (hne ((hadds.grows.apart _ p hp).1 hle)),
        hadds.grows.node? m hm]
  · exact hadds.grows.apart n p ((hadds.wellFormed.parent?_discard_eq_some_iff hwrapper).1 hp).1

theorem Adds.moves_discard : d.Moves S (¬ S ·) (d'.discard wrapper) :=
  .of_adds hadds.discard fun _ hn => ⟨not_mem_of_fresh_le hS hn, not_mem_of_fresh_le hS hn⟩

omit hS in
theorem Adds.extends_fill (spot : Spot) (ns : List NodeId) :
    d.Extends ((d'.put spot wrapper).tryPutAll (.lastIn ((d'.put spot wrapper).innermost wrapper)) ns) :=
  (hadds.grows.toExtends.trans (extends_put d' spot wrapper)).trans (extends_tryPutAll _ ns _)

section Spot
variable {spot : Spot} (hp : spot.parent? d' = some p)
include hp

omit hS in
theorem Adds.refusal?_eq_none (hold : d.isAllocated p) (hleaf : ¬ d.isLeaf p) :
    d'.refusal? spot wrapper = none :=
  refusal?_eq_none_iff.2 ⟨p, hp, .inr (accepts_iff.2
    ⟨by rwa [hadds.grows.toExtends.isLeaf_iff hold], hadds.not_liesIn_wrapper (lt_fresh hold)⟩)⟩

omit hS in
theorem Adds.le_of_liesIn_put (hm : (d'.put spot wrapper).LiesIn m wrapper) : d.fresh ≤ m := by
  obtain ⟨hle, hwrapper⟩ := hadds.of_mem _ List.mem_cons_self
  refine hadds.grows.le_of_liesIn ((liesIn_relinked fun x hx => ?_).1 hm) hle
  rw [parent?_put hwrapper hp, if_neg hx]

/-- The wrapper goes to a spot with an old parent, and nodes go into its innermost element. -/
theorem Adds.moves_fill (hold : d.isAllocated p) (hleaf : ¬ d.isLeaf p) (hout : ¬ S p)
    (hns : ∀ n ∈ ns, d.isAllocated n ∧ ¬ S n) :
    d.Moves S (¬ S ·) ((d'.put spot wrapper).tryPutAll
      (.lastIn ((d'.put spot wrapper).innermost wrapper)) ns) := by
  obtain ⟨hle, hwrapper⟩ := hadds.of_mem _ List.mem_cons_self
  have hmore := hadds.grows.toExtends
  have hput := Moves.of_put (S := S) (M := (¬ S ·)) hadds.wellFormed hwrapper hp
    (hmore.isAllocated hold) (hadds.refusal?_eq_none hp hold hleaf) (not_mem_of_fresh_le hS hle) hout
  have hinner := hput.wellFormed.liesIn_innermost wrapper
  have hinnerNew := hadds.le_of_liesIn_put hp hinner
  refine (hadds.moves_wrapper hS).trans (hput.trans (.of_tryPutAll hput.wellFormed
    (fun n hn => ?_) (hinner.isAllocated (hput.isAllocated hwrapper))
    (not_mem_of_fresh_le hS hinnerNew)))
  exact (hns n hn).imp_left fun hn => hput.isAllocated (hmore.isAllocated hn)

end Spot

include h

omit hS in
theorem Adds.wrapAt_of_parent? (ns : List NodeId) (hp : d.parent? first = some p) :
    d.isAllocated p ∧ ¬ d.isLeaf p ∧ (Spot.before first).parent? d' = some p ∧
      d'.wrapAt wrapper first ns = ((d'.put (.before first) wrapper).tryPutAll
        (.lastIn ((d'.put (.before first) wrapper).innermost wrapper)) ns).adoptTopLevel [wrapper] := by
  have hp' : d'.parent? first = some p :=
    (hadds.grows.parent?_of_lt (lt_fresh (isAllocated_of_parent? hp))).trans hp
  have hold := h.isAllocated_parent hp
  have hleaf := h.not_isLeaf_parent hp
  have hspot : (Spot.before first).parent? d' = some p := hp'
  refine ⟨hold, hleaf, hspot, ?_⟩
  rw [wrapAt, hp', hadds.refusal?_eq_none hspot hold hleaf]
  rfl

theorem Adds.moves_wrapAt (hsplit : d.Split S) (hfirst : d.isAllocated first ∧ ¬ S first)
    (hns : ∀ n ∈ ns, d.isAllocated n ∧ ¬ S n) :
    d.Moves S (¬ S ·) (d'.wrapAt wrapper first ns) := by
  obtain ⟨hle, hwrapper⟩ := hadds.of_mem _ List.mem_cons_self
  have hmore := hadds.grows.toExtends
  have hroot : ¬ S wrapper := not_mem_of_fresh_le hS hle
  have hadopt {d'' : Document} (hmoves : d.Moves S (¬ S ·) d'') (hkept : d''.isAllocated wrapper) :
      d.Moves S (¬ S ·) (d''.adoptTopLevel [wrapper]) := by
    refine hmoves.adoptTopLevel fun n hn => ?_
    rw [List.mem_singleton.1 hn]
    exact ⟨hkept, .inl hroot⟩
  cases hp : d.parent? first with
  | none =>
    have hinner := hadds.wellFormed.liesIn_innermost wrapper
    have hnew := hadds.grows.le_of_liesIn hinner hle
    have hput := Moves.of_tryPutAll (S := S) (M := (¬ S ·)) hadds.wellFormed
      (fun n hn => (hns n hn).imp_left hmore.isAllocated) (hinner.isAllocated hwrapper)
      (not_mem_of_fresh_le hS hnew)
    rw [wrapAt, hadds.grows.parent?_of_lt (lt_fresh hfirst.1), hp]
    exact hadopt ((hadds.moves_wrapper hS).trans hput) (hput.isAllocated hwrapper)
  | some p =>
    obtain ⟨hold, hleaf, hspot, hwrap⟩ := hadds.wrapAt_of_parent? h ns hp
    rw [hwrap]
    refine hadopt (hadds.moves_fill hS hspot hold hleaf ((hsplit first p hp).not.1 hfirst.2) hns) ?_
    have hkept : (d'.put (.before first) wrapper).isAllocated wrapper :=
      (extends_put d' _ wrapper).isAllocated hwrapper
    exact (extends_tryPutAll _ ns _).isAllocated hkept

end One

/-! What is inside a node. -/

theorem WellFormed.wrapChildren_of_isLeaf (h : d.WellFormed) (template : NodeId) (hleaf : d.isLeaf n) :
    d.wrapChildren template n = (d.copy template true).1.discard (d.copy template true).2 := by
  have hadds := h.adds_copy template true
  have hrefused : ((d.copy template true).1.refusal? (.lastIn n) (d.copy template true).2).isSome := by
    rw [Option.isSome_iff_ne_none, Ne, refusal?_eq_none_iff]
    rintro ⟨p, hp, hnext | haccepts⟩
    · cases hnext
    · obtain rfl := Option.some.inj hp
      exact (accepts_iff.1 haccepts).1
        ((hadds.grows.toExtends.isLeaf_iff (isAllocated_of_isLeaf hleaf)).2 hleaf)
  rw [Document.wrapChildren]
  simp only [hrefused, if_true]

theorem WellFormed.wrapChildren_of_not_isLeaf (h : d.WellFormed) (template : NodeId)
    (hn : d.isAllocated n) (hleaf : ¬ d.isLeaf n) :
    let put := (d.copy template true).1.put (.lastIn n) (d.copy template true).2
    d.wrapChildren template n =
      put.tryPutAll (.lastIn (put.innermost (d.copy template true).2)) (d.children n) := by
  have hadds := h.adds_copy template true
  have haccepted := hadds.refusal?_eq_none
    (show (Spot.lastIn n).parent? (d.copy template true).1 = some n from rfl) hn hleaf
  rw [Document.wrapChildren]
  simp only [haccepted, hadds.grows.children_of_lt (lt_fresh hn)]
  rfl

/-! Wrapping nodes. No node of the set is among them. -/

section All
variable (h : d.WellFormed) (hS : ∀ n, S n → n < d.fresh) (hsplit : d.Split S)
  (hns : ∀ n ∈ ns, d.isAllocated n ∧ ¬ S n)
include h hS hsplit hns

theorem WellFormed.moves_foldl {f : Document → NodeId → Document}
    (hf : ∀ {d : Document} {n : NodeId}, d.WellFormed → (∀ n, S n → n < d.fresh) → d.Split S →
      d.isAllocated n ∧ ¬ S n → d.Moves S (¬ S ·) (f d n)) : d.Moves S (¬ S ·) (ns.foldl f d) := by
  induction ns generalizing d with
  | nil => exact .refl h
  | cons n ns ih =>
    have hfirst := hf h hS hsplit (hns n List.mem_cons_self)
    exact hfirst.trans (ih hfirst.wellFormed (fun m hm => Nat.lt_of_lt_of_le (hS m hm) hfirst.fresh_le)
      (hfirst.split hsplit) fun m hm => (hns m (List.mem_cons_of_mem n hm)).imp_left hfirst.isAllocated)

theorem WellFormed.wrapEach (template : NodeId) :
    d.Moves S (¬ S ·) (d.wrapEach template ns) := by
  refine h.moves_foldl hS hsplit hns fun {d n} h hS hsplit hn => ?_
  refine (h.adds_copy template true).moves_wrapAt h hS hsplit hn fun m hm => ?_
  rwa [List.mem_singleton.1 hm]

theorem WellFormed.wrapTogether (template : NodeId) :
    d.Moves S (¬ S ·) (d.wrapTogether template ns) := by
  cases ns with
  | nil => exact .refl h
  | cons first rest =>
    exact (h.adds_copy template true).moves_wrapAt h hS hsplit (hns _ List.mem_cons_self) hns

omit hns in
theorem WellFormed.wrapChildren (template : NodeId) (hn : d.isAllocated n ∧ ¬ S n) :
    d.Moves S (¬ S ·) (d.wrapChildren template n) := by
  have hadds := h.adds_copy template true
  by_cases hleaf : d.isLeaf n
  · rw [h.wrapChildren_of_isLeaf template hleaf]
    exact hadds.moves_discard hS
  · rw [h.wrapChildren_of_not_isLeaf template hn.1 hleaf]
    refine hadds.moves_fill hS rfl hn.1 hleaf hn.2 fun m hm => ?_
    exact ⟨h.isAllocated_child hm, (hsplit m n (h.parent?_eq_some_iff.2 hm)).not.2 hn.2⟩

theorem WellFormed.wrapInside (template : NodeId) :
    d.Moves S (¬ S ·) (d.wrapInside template ns) :=
  h.moves_foldl hS hsplit hns fun h hS hsplit hn => h.wrapChildren hS hsplit template hn

end All
end DomQuery.Document
