import DomQuery.Proofs.Document.Soundness

/-!
Refused changes. When a change is refused is said in terms of the tree alone. A move that is not refused
takes the node out first and links it anew then; the store can refuse a link, but never one that comes
after such a move has been checked, so what has begun is completed.
-/
namespace DomQuery
variable {d d' : Document} {n p s : NodeId} {spot : Spot}

/-- The state that a computation leaves behind, which is the old one when it fails, and its answer. -/
def settle {σ ε α : Type} (s : σ) : Except ε (σ × α) → σ × Except ε α
  | .ok (s, a) => (s, .ok a)
  | .error e => (s, .error e)

def Spot.anchor : Spot → NodeId
  | .firstIn p => p
  | .lastIn p => p
  | .before s => s
  | .after s => s

/-- The changes that are refused. -/
def Change.Refused (d : Document) : Change → Prop
  | .move (.firstIn p) n => d.isLeaf p ∨ d.LiesIn p n
  | .move (.lastIn p) n => d.isLeaf p ∨ d.LiesIn p n
  | .move (.before s) n => d.parent? s = none ∨ s ≠ n ∧ d.isWithin s n
  | .move (.after s) n => d.parent? s = none ∨ s ≠ n ∧ d.isWithin s n
  | .insertBefore p n none => d.isLeaf p ∨ d.LiesIn p n
  | .insertBefore p n (some s) => s ∉ d.children p ∨ s ≠ n ∧ (d.isLeaf p ∨ d.LiesIn p n)
  | .removeChild p n => n ∉ d.children p
  | .replaceChild p new old => old ∉ d.children p ∨ new ≠ old ∧ d.LiesIn p new
  | .editElement n _ => ¬ d.isElement n
  | _ => False

namespace Document

theorem exists_move_eq_error : (∃ e, d.move spot n = .error e) ↔ (d.refusal? spot n).isSome := by
  rw [move]
  cases d.refusal? spot n <;> simp

theorem refusal?_isSome_iff : (d.refusal? spot n).isSome ↔
    ∀ p, spot.parent? d = some p → ¬ spot.isNextTo n ∧ (d.isLeaf p ∨ d.LiesIn p n) := by
  rw [← not_iff_not, Option.not_isSome_iff_eq_none, refusal?_eq_none_iff]
  simp only [accepts_iff, not_forall, not_and_or, not_or, not_not, exists_prop]

theorem refusal?_isSome_inside (hspot : spot = .firstIn p ∨ spot = .lastIn p) :
    (d.refusal? spot n).isSome ↔ d.isLeaf p ∨ d.LiesIn p n := by
  rw [refusal?_isSome_iff]
  rcases hspot with rfl | rfl <;> simp [Spot.parent?, Spot.isNextTo]

section WellFormed
variable (h : d.WellFormed)
include h

theorem WellFormed.refusal?_isSome_beside (hspot : spot = .before s ∨ spot = .after s) :
    (d.refusal? spot n).isSome ↔ d.parent? s = none ∨ s ≠ n ∧ d.isWithin s n := by
  have hparent : spot.parent? d = d.parent? s := by rcases hspot with rfl | rfl <;> rfl
  have hnext : spot.isNextTo n ↔ s = n := by rcases hspot with rfl | rfl <;> simp [Spot.isNextTo]
  rw [refusal?_isSome_iff, hparent, hnext]
  cases hp : d.parent? s with
  | none => simp
  | some p =>
    have hwithin : d.isWithin s n ↔ d.LiesIn p n := isWithin_iff_of_parent? hp
    have hleaf := h.not_isLeaf_parent hp
    simp [hleaf, hwithin]

theorem WellFormed.exists_insertBefore_eq_error : (∃ e, d.insertBefore p n (some s) = .error e) ↔
    s ∉ d.children p ∨ s ≠ n ∧ (d.isLeaf p ∨ d.LiesIn p n) := by
  rw [insertBefore, ← h.parent?_eq_some_iff]
  split
  · rename_i hs
    rw [exists_move_eq_error, refusal?_isSome_iff]
    simp [Spot.parent?, Spot.isNextTo, hs]
  · rename_i hs
    simp [hs]

theorem WellFormed.exists_removeChild_eq_error :
    (∃ e, d.removeChild p n = .error e) ↔ n ∉ d.children p := by
  rw [removeChild, ← h.parent?_eq_some_iff]
  split <;> simp [*]

theorem WellFormed.exists_replaceChild_eq_error {old : NodeId} :
    (∃ e, d.replaceChild p n old = .error e) ↔ old ∉ d.children p ∨ n ≠ old ∧ d.LiesIn p n := by
  rw [replaceChild, ← h.parent?_eq_some_iff]
  split
  · rename_i hold
    simp [hold]
  rename_i hold
  rw [not_not] at hold
  have hrefused : (d.refusal? (.before old) n).isSome ↔ n ≠ old ∧ d.LiesIn p n := by
    rw [refusal?_isSome_iff, ne_comm]
    simp [Spot.parent?, Spot.isNextTo, hold, h.not_isLeaf_parent hold]
  split
  · rename_i heq
    simp [hold, heq]
  · rename_i hne
    rw [← hrefused]
    cases d.refusal? (.before old) n <;> simp [hold]

end WellFormed
end Document

namespace Change

/-- A change fails when it is refused, and only then. -/
theorem exists_run_eq_error (h : d.WellFormed) (change : Change) :
    (∃ e, change.run d = .error e) ↔ change.Refused d := by
  have hmove (spot : Spot) (n : NodeId) :
      (∃ e, (Change.move spot n).run d = .error e) ↔ (d.refusal? spot n).isSome := by
    simp only [run, map_eq_error, Document.exists_move_eq_error]
  have hspot (spot : Spot) (n : NodeId) :
      (d.refusal? spot n).isSome ↔ (Change.move spot n).Refused d := by
    cases spot with
    | firstIn p => exact Document.refusal?_isSome_inside (.inl rfl)
    | lastIn p => exact Document.refusal?_isSome_inside (.inr rfl)
    | before s => exact h.refusal?_isSome_beside (.inl rfl)
    | after s => exact h.refusal?_isSome_beside (.inr rfl)
  cases change with
  | move spot n => exact (hmove spot n).trans (hspot spot n)
  | insertBefore p n reference =>
    cases reference with
    | none => exact (hmove (.lastIn p) n).trans (hspot (.lastIn p) n)
    | some s =>
      simp only [run, map_eq_error]
      exact h.exists_insertBefore_eq_error
  | removeChild p n =>
    simp only [run, map_eq_error]
    exact h.exists_removeChild_eq_error
  | replaceChild p new old =>
    simp only [run, map_eq_error]
    exact h.exists_replaceChild_eq_error
  | editElement n edit =>
    simp only [run, map_eq_error, Document.onElement, Refused]
    split <;> simp_all
  | create kind space => simp [run, Refused]
  | parse markup => simp [run, Refused]
  | detach n => simp [run, Refused]
  | clearChildren n => simp [run, Refused]
  | copy n deep => simp [run, Refused]
  | setTextContent n text => simp [run, Refused]
  | assign n kind space => simp [run, Refused]
  | register nodes => simp [run, Refused]
  | unregister nodes => simp [run, Refused]
  | clearRoots => simp [run, Refused]

end Change

/-! Step by step. -/

namespace Document

/-- The cases in which a store may refuse a link: a node is missing, or one of them would be linked to
itself or to what is below it. -/
def Unlinkable (d : Document) (spot : Spot) (n : NodeId) : Prop :=
  ¬ d.isAllocated n ∨ ¬ d.Has spot ∨ d.LiesIn spot.anchor n

instance (d : Document) (spot : Spot) (n : NodeId) : Decidable (d.Unlinkable spot n) :=
  inferInstanceAs (Decidable (_ ∨ _ ∨ _))

/-- A move as the steps that it takes. The first part of the result is the document that is left behind,
whether the move succeeds or not. -/
def moveInSteps (refuses : Document → Spot → NodeId → Bool) (d : Document) (spot : Spot) (n : NodeId) :
    Document × Except MoveError Unit :=
  match d.refusal? spot n with
  | some e => (d, .error e)
  | none =>
    if spot.isNextTo n then (d, .ok ())
    else
      let d := d.detach n
      if refuses d spot n then (d, .error .hierarchy) else (d.put spot n, .ok ())

def replaceInSteps (refuses : Document → Spot → NodeId → Bool) (d : Document) (parent new old : NodeId) :
    Document × Except MoveError Unit :=
  if d.parent? old ≠ some parent then (d, .error .notFound)
  else if new = old then (d, .ok ())
  else match d.moveInSteps refuses (.before old) new with
  | (d, .error e) => (d, .error e)
  | (d, .ok ()) => (d.detach old, .ok ())

theorem put_detach (hnext : ¬ spot.isNextTo n) (hp : spot.parent? d = some p) :
    (d.detach n).put spot n = d.put spot n := by
  have hparent : spot.parent? (d.detach n) = some p := by
    cases spot with
    | firstIn q => exact hp
    | lastIn q => exact hp
    | before s =>
      have hs : s ≠ n := by simpa [Spot.isNextTo] using hnext
      exact (parent?_detach d n s).trans ((if_neg hs).trans hp)
    | after s =>
      have hs : s ≠ n := by simpa [Spot.isNextTo] using hnext
      exact (parent?_detach d n s).trans ((if_neg hs).trans hp)
  have htwice : (d.detach n).detach n = d.detach n := by
    rw [detach, parent?_detach, if_pos rfl]
  rw [put_of_parent? hnext hparent, put_of_parent? hnext hp, htwice]

/-- The check rules out all that the store could object to once the node is out of its place. -/
theorem not_unlinkable_detach (hn : d.isAllocated n) (hspot : d.Has spot)
    (haccepted : d.refusal? spot n = none) (hnext : ¬ spot.isNextTo n) :
    ¬ (d.detach n).Unlinkable spot n := by
  have hmore := extends_detach d n
  have hup {m a : NodeId} (hlies : (d.detach n).LiesIn m a) : d.LiesIn m a := by
    rw [liesIn_iff] at hlies ⊢
    refine Relation.ReflTransGen.mono (fun x y hxy => ?_) m a hlies
    rw [Climb.Step, parent?_detach] at hxy
    split at hxy
    · cases hxy
    · exact hxy
  obtain ⟨p, hp, haccepts⟩ := refusal?_eq_none_iff.1 haccepted
  have hfree := (accepts_iff.1 (haccepts.resolve_left hnext)).2
  rintro (hmissing | hmissing | hlies)
  · exact hmissing (hmore.isAllocated hn)
  · exact hmissing (hmore.has hspot)
  · have hlies := hup hlies
    have hbeside {s : NodeId} (hs : s ≠ n) (hparent : d.parent? s = some p) (hlies : d.LiesIn s n) :
        d.LiesIn p n := (isWithin_iff_of_parent? hparent).1 (hlies.resolve_left hs)
    cases spot with
    | firstIn q => exact hfree (Option.some.inj hp ▸ hlies)
    | lastIn q => exact hfree (Option.some.inj hp ▸ hlies)
    | before s => exact hfree (hbeside (by simpa [Spot.isNextTo] using hnext) hp hlies)
    | after s => exact hfree (hbeside (by simpa [Spot.isNextTo] using hnext) hp hlies)

section Steps
variable {refuses : Document → Spot → NodeId → Bool}
  (hrefuses : ∀ d spot n, refuses d spot n → Unlinkable d spot n)
include hrefuses

theorem moveInSteps_eq (hn : d.isAllocated n) (hspot : d.Has spot) :
    d.moveInSteps refuses spot n = settle d ((d.move spot n).map (·, ())) := by
  rw [moveInSteps, move]
  cases haccepted : d.refusal? spot n with
  | some e => rfl
  | none =>
    dsimp only
    split
    · rename_i hnext
      rw [put_of_isNextTo hnext]
      rfl
    · rename_i hnext
      have hlinks : ¬ refuses (d.detach n) spot n := fun hrefused =>
        not_unlinkable_detach hn hspot haccepted hnext (hrefuses _ _ _ hrefused)
      obtain ⟨p, hp, -⟩ := refusal?_eq_none_iff.1 haccepted
      rw [if_neg hlinks, put_detach hnext hp]
      rfl

theorem replaceInSteps_eq {old : NodeId} (hn : d.isAllocated n) :
    d.replaceInSteps refuses p n old = settle d ((d.replaceChild p n old).map (·, ())) := by
  rw [replaceInSteps, replaceChild]
  split
  · rfl
  rename_i hold
  rw [not_not] at hold
  split
  · rfl
  rw [moveInSteps_eq hrefuses hn (show d.Has (.before old) from isAllocated_of_parent? hold), move]
  cases d.refusal? (.before old) n <;> rfl

end Steps
end Document

namespace Change

/-- The document that a change leaves behind, and the nodes that the caller gets. The store can refuse the
links that moves ask for; the other changes ask for none. -/
def inSteps (refuses : Document → Spot → NodeId → Bool) (d : Document) :
    Change → Document × Except MoveError (List NodeId)
  | .move spot n => (d.moveInSteps refuses spot n).map id (·.map fun _ => [])
  | .insertBefore parent n none => (d.moveInSteps refuses (.lastIn parent) n).map id (·.map fun _ => [])
  | .insertBefore parent n (some s) =>
    if d.parent? s = some parent then (d.moveInSteps refuses (.before s) n).map id (·.map fun _ => [])
    else (d, .error .notFound)
  | .replaceChild parent new old =>
    (d.replaceInSteps refuses parent new old).map id (·.map fun _ => [old])
  | change => settle d (change.run d)

theorem map_settle {ns : List NodeId} (x : Except MoveError Document) :
    (settle d (x.map (·, ()))).map id (·.map fun _ => ns) = settle d (x.map (·, ns)) := by
  cases x <;> rfl

/-- Done in steps, a change leaves behind what it leads to or, when it is refused, what there was. -/
theorem inSteps_eq {refuses : Document → Spot → NodeId → Bool}
    (hrefuses : ∀ d spot n, refuses d spot n → Document.Unlinkable d spot n) {change : Change}
    (hchange : change.Admissible d) : change.inSteps refuses d = settle d (change.run d) := by
  cases change with
  | move spot n => rw [inSteps, Document.moveInSteps_eq hrefuses hchange.2 hchange.1, map_settle, run]
  | insertBefore p n reference =>
    obtain ⟨hp, hn, hreference⟩ := hchange
    cases reference with
    | none =>
      rw [inSteps, Document.moveInSteps_eq hrefuses hn (show d.Has (.lastIn p) from hp), map_settle, run,
        Document.insertBefore]
    | some s =>
      rw [inSteps, run, Document.insertBefore]
      split
      · rw [Document.moveInSteps_eq hrefuses hn (show d.Has (.before s) from hreference s rfl), map_settle]
      · rfl
  | replaceChild p new old =>
    rw [inSteps, Document.replaceInSteps_eq hrefuses hchange.2.1, map_settle, run]
  | _ => rfl

end Change
end DomQuery
