import DomQuery.Document.Placement
import DomQuery.Proofs.Document.Discard
import DomQuery.Proofs.Document.Growth

/-!
Moves that keep out of a set of nodes. While content is handed out, its nodes leave the fragment that
they were read into, and nothing ever moves into that fragment's part of the document; so in the end
the fragment can be freed with what is left in it.
-/
namespace DomQuery.Document
variable {d d' d'' read : Document} {S M : NodeId → Prop} {n m p c : NodeId} {spot : Spot}
  {ns : List NodeId}

def Sealed (S : NodeId → Prop) (d : Document) : Prop := ∀ n p, d.parent? n = some p → S p → S n

theorem Sealed.of_liesIn (h : d.Sealed S) (hm : d.LiesIn m n) (hn : S n) : S m := by
  induction liesIn_iff.1 hm using Relation.ReflTransGen.head_induction_on with
  | refl => exact hn
  | @head a b hstep hreach ih => exact h a b hstep (ih (liesIn_iff.2 hreach))

def Free (S : NodeId → Prop) (d : Document) (n : NodeId) : Prop :=
  ¬ S n ∨ ∃ p, d.parent? n = some p ∧ ¬ S p

theorem Free.not_liesIn (hn : d.Free S n) (h : d.Sealed S) (hc : S c)
    (htop : ∀ q, d.parent? c = some q → S q) : ¬ d.LiesIn n c := by
  intro hlies
  rcases hn with hn | ⟨p, hp, hout⟩
  · exact hn (h.of_liesIn hlies hc)
  · rcases hlies with rfl | hwithin
    · exact hout (htop p hp)
    · exact hout (h.of_liesIn ((isWithin_iff_of_parent? hp).1 hwithin) hc)

/-- The parents that have changed belong to nodes of `M` and are outside `S`. -/
structure Moves (S M : NodeId → Prop) (d d' : Document) : Prop where
  wellFormed : d'.WellFormed
  data? : ∀ n < d.fresh, d'.data? n = d.data? n
  fresh_le : d.fresh ≤ d'.fresh
  parent? : ∀ n, d'.parent? n = d.parent? n ∨ M n ∧ ∃ p, d'.parent? n = some p ∧ ¬ S p
  nodup_roots : d.roots.Nodup → d'.roots.Nodup
  of_mem_roots : ∀ r ∈ d'.roots, r ∈ d.roots ∨ d'.isAllocated r ∧ d'.Free S r

namespace Moves

theorem refl (h : d.WellFormed) : d.Moves S M d where
  wellFormed := h
  data? _ _ := rfl
  fresh_le := Nat.le_refl _
  parent? _ := .inl rfl
  nodup_roots := id
  of_mem_roots _ := .inl

theorem isAllocated (h : d.Moves S M d') (hn : d.isAllocated n) : d'.isAllocated n :=
  (isAllocated_congr (h.data? n (lt_fresh hn))).2 hn

theorem outside (h : d.Moves S M d') (hn : ∃ p, d.parent? n = some p ∧ ¬ S p) :
    ∃ p, d'.parent? n = some p ∧ ¬ S p := by
  cases h.parent? n with
  | inl hsame => rwa [hsame]
  | inr hmoved => exact hmoved.2

theorem free (h : d.Moves S M d') (hn : d.Free S n) : d'.Free S n := hn.imp_right h.outside

theorem sealed (h : d.Moves S M d') (hd : d.Sealed S) : d'.Sealed S := by
  intro n p hp hin
  rcases h.parent? n with hsame | ⟨-, q, hq, hout⟩
  · exact hd n p (hsame.symm.trans hp) hin
  · exact absurd (Option.some.inj (hq.symm.trans hp) ▸ hin) hout

theorem trans (h : d.Moves S M d') (h' : d'.Moves S M d'') : d.Moves S M d'' where
  wellFormed := h'.wellFormed
  data? n hn := (h'.data? n (Nat.lt_of_lt_of_le hn h.fresh_le)).trans (h.data? n hn)
  fresh_le := Nat.le_trans h.fresh_le h'.fresh_le
  parent? n := by
    rcases h'.parent? n with hsame' | hmoved'
    · rcases h.parent? n with hsame | ⟨hn, hout⟩
      · exact .inl (hsame'.trans hsame)
      · exact .inr ⟨hn, h'.outside hout⟩
    · exact .inr hmoved'
  nodup_roots := h'.nodup_roots ∘ h.nodup_roots
  of_mem_roots r hr := by
    rcases h'.of_mem_roots r hr with hr | hr
    · exact (h.of_mem_roots r hr).imp_right fun hr => ⟨h'.isAllocated hr.1, h'.free hr.2⟩
    · exact .inr hr

theorem of_put (h : d.WellFormed) (hn : d.isAllocated n) (hp : spot.parent? d = some p)
    (hallocated : d.isAllocated p) (haccepted : d.refusal? spot n = none) (hM : M n) (hS : ¬ S p) :
    d.Moves S M (d.put spot n) where
  wellFormed := h.put hn (has_of_parent? hp hallocated) haccepted
  data? m _ := data?_put d spot n m
  fresh_le := (fresh_put d spot n).ge
  parent? m := by
    rw [parent?_put hn hp]
    split
    · rename_i hm
      exact .inr ⟨hm ▸ hM, p, rfl, hS⟩
    · exact .inl rfl
  nodup_roots h := by rwa [roots_put]
  of_mem_roots r hr := .inl (by rwa [roots_put] at hr)

theorem of_tryPutAll (h : d.WellFormed) (hns : ∀ n ∈ ns, d.isAllocated n ∧ M n)
    (hp : d.isAllocated p) (hS : ¬ S p) : d.Moves S M (d.tryPutAll (.lastIn p) ns) := by
  have hallocated (n : NodeId) (hn : n ∈ ns) : d.isAllocated n := (hns n hn).1
  have hmore := extends_tryPutAll (.lastIn p) ns d
  refine ⟨h.tryPutAll hallocated hp, hmore.data?, hmore.fresh_le, fun m => ?_, fun hroots => ?_,
    fun r hr => .inl ?_⟩
  · refine (parent?_tryPutAll hallocated m).imp_right fun hm => ?_
    exact ⟨(hns m hm.1).2, p, hm.2, hS⟩
  · rwa [hmore.roots]
  · rwa [hmore.roots] at hr

theorem of_adds (h : d.Adds d' ns) (hnew : ∀ n, d.fresh ≤ n → M n ∧ ¬ S n) : d.Moves S M d' where
  wellFormed := h.wellFormed
  data? := h.grows.toExtends.data?
  fresh_le := h.grows.fresh_le
  parent? n := by
    by_cases hn : n < d.fresh
    · exact .inl (h.grows.parent?_of_lt hn)
    have hle := Nat.le_of_not_lt hn
    cases hp : d'.parent? n with
    | none => exact .inl (by rw [Document.parent?, node?_of_le hle]; rfl)
    | some p => exact .inr ⟨(hnew n hle).1, p, rfl, (hnew p ((h.grows.apart n p hp).1 hle)).2⟩
  nodup_roots hroots := by rwa [h.grows.roots]
  of_mem_roots r hr := .inl (by rwa [h.grows.roots] at hr)

end Moves

/-! The fragment that nodes were read into. -/

theorem not_read_of_lt (hm : m < d.fresh) : ¬ (d.fresh ≤ m ∧ m < read.fresh) :=
  fun hin => Nat.not_lt_of_le hin.1 hm

theorem not_read_of_le (hm : read.fresh ≤ m) : ¬ (d.fresh ≤ m ∧ m < read.fresh) :=
  fun hin => Nat.not_lt_of_le hm hin.2

section Read
variable (hscratch : ∀ n ∈ ns, read.parent? n = some d.fresh) (hne : ns ≠ [])
include hscratch hne

theorem Adds.isAllocated_scratch (hadds : d.Adds read ns) : read.isAllocated d.fresh := by
  obtain ⟨n, hn⟩ := List.exists_mem_of_ne_nil ns hne
  exact hadds.wellFormed.isAllocated_parent (hscratch n hn)

theorem discardScratch_of_ne_nil (d' : Document) :
    d'.discardScratch (read.scratch? ns) = d'.discard d.fresh := by
  obtain ⟨n, rest, rfl⟩ := List.exists_cons_of_ne_nil hne
  have hscratch? : read.scratch? (n :: rest) = some d.fresh := hscratch n List.mem_cons_self
  rw [hscratch?]
  rfl

end Read

/-! Roots. -/

theorem nodup_roots_register (hroots : d.roots.Nodup) (ns : List NodeId) :
    (d.register ns).roots.Nodup := by
  rw [register]
  refine List.foldlRecOn ns _ hroots fun roots hnodup n _ => ?_
  split
  · exact hnodup
  · rename_i hn
    rw [List.contains_iff_mem] at hn
    exact List.nodup_append_comm.1 (List.nodup_cons.2 ⟨hn, hnodup⟩)

theorem mem_roots_of_register (hr : n ∈ (d.register ns).roots) : n ∈ d.roots ∨ n ∈ ns := by
  have hfold (roots : List NodeId) (hroots : ∀ r ∈ roots, r ∈ d.roots ∨ r ∈ ns) (m : NodeId)
      (hm : m ∈ ns) (r : NodeId) (hr : r ∈ if roots.contains m then roots else roots ++ [m]) :
      r ∈ d.roots ∨ r ∈ ns := by
    split at hr
    · exact hroots r hr
    · cases List.mem_append.1 hr with
      | inl hr => exact hroots r hr
      | inr hr => exact .inr (List.mem_singleton.1 hr ▸ hm)
  have hall : ∀ r ∈ (d.register ns).roots, r ∈ d.roots ∨ r ∈ ns :=
    List.foldlRecOn (motive := fun roots : List NodeId => ∀ r ∈ roots, r ∈ d.roots ∨ r ∈ ns) ns _
      (fun r => Or.inl) hfold
  exact hall n hr

theorem WellFormed.of_same_slots (h : d.WellFormed) (hslots : d'.slots = d.slots) :
    d'.WellFormed := by
  have hnode : d'.node? = d.node? := by
    funext n
    rw [node?, node?, hslots]
  refine h.of_same_links (fun m => by rw [parent?, parent?, hnode])
    (fun m => by rw [children, children, hnode]) fun m hm => h.children_of_isLeaf ?_
  rwa [isLeaf, kind?, hnode] at hm

theorem Moves.adoptTopLevel (h : d.Moves S M d') (hns : ∀ n ∈ ns, d'.isAllocated n ∧ d'.Free S n) :
    d.Moves S M (d'.adoptTopLevel ns) where
  wellFormed := h.wellFormed.of_same_slots rfl
  data? := h.data?
  fresh_le := h.fresh_le
  parent? := h.parent?
  nodup_roots hroots := nodup_roots_register (h.nodup_roots hroots) _
  of_mem_roots r hr := by
    cases mem_roots_of_register hr with
    | inl hr => exact h.of_mem_roots r hr
    | inr hr => exact .inr (hns r (List.mem_of_mem_filter hr))

end DomQuery.Document
