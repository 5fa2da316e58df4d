import DomQuery.Proofs.Document.Accounting
import DomQuery.Proofs.Document.OrderedForest

/-!
Nodes in a row. Nodes that are placed at one target end up one behind the other, in the order of the
list, wherever they were before: the spot cuts the children in two, and each node that is placed leaves
its old place and goes between the two parts. Only a target that nodes are placed before, and that is one
of them itself, does not move and closes the row.
-/
namespace DomQuery
variable {d d' : Document} {n m p q target : NodeId} {spot : Spot} {way : Place}
  {ns left right : List NodeId}

namespace Spot

/-- The children of the parent are cut in two at the spot. -/
def Cuts (left right : List NodeId) : Spot → Prop
  | .firstIn _ => left = []
  | .lastIn _ => right = []
  | .before s => right.head? = some s
  | .after s => left.getLast? = some s

theorem flatMap_beside {f : NodeId → List NodeId} {s : NodeId} (hf : ∀ c ≠ s, f c = [c]) {cs : List NodeId}
    (hcs : s ∉ cs) : cs.flatMap f = cs := by
  induction cs with
  | nil => rfl
  | cons c cs ih =>
    obtain ⟨hc, hrest⟩ := not_or.1 (List.mem_cons.not.1 hcs)
    rw [List.flatMap_cons, hf c (Ne.symm hc), ih hrest]
    rfl

theorem insertInto_of_cuts (h : spot.Cuts left right) (hnodup : (left ++ right).Nodup) (n : NodeId) :
    spot.insertInto n (left ++ right) = left ++ n :: right := by
  cases spot with
  | firstIn p => rw [show left = [] from h]; rfl
  | lastIn p => rw [show right = [] from h, List.append_nil]; rfl
  | before s =>
    obtain ⟨rest, rfl⟩ := List.head?_eq_some_iff.1 h
    rw [List.nodup_middle, List.nodup_cons, List.mem_append, not_or] at hnodup
    rw [insertInto, List.flatMap_append, List.flatMap_cons, flatMap_beside _ hnodup.1.1,
      flatMap_beside _ hnodup.1.2, if_pos rfl]
    · rfl
    all_goals exact fun c hc => if_neg hc
  | after s =>
    obtain ⟨init, rfl⟩ := List.getLast?_eq_some_iff.1 h
    rw [List.append_assoc, List.singleton_append, List.nodup_middle, List.nodup_cons, List.mem_append,
      not_or] at hnodup
    rw [insertInto, List.append_assoc, List.flatMap_append, List.singleton_append, List.flatMap_cons,
      flatMap_beside _ hnodup.1.1, flatMap_beside _ hnodup.1.2, if_pos rfl]
    · simp
    all_goals exact fun c hc => if_neg hc

theorem Cuts.erase (h : spot.Cuts left right) (hnext : ¬ spot.isNextTo n) :
    spot.Cuts (left.erase n) (right.erase n) := by
  cases spot with
  | firstIn p => rw [Cuts, show left = [] from h]; rfl
  | lastIn p => rw [Cuts, show right = [] from h]; rfl
  | before s =>
    have hs : s ≠ n := by simpa [isNextTo] using hnext
    obtain ⟨rest, rfl⟩ := List.head?_eq_some_iff.1 h
    rw [Cuts, List.erase_cons_tail (by simpa using hs)]
    rfl
  | after s =>
    have hs : s ≠ n := by simpa [isNextTo] using hnext
    obtain ⟨init, rfl⟩ := List.getLast?_eq_some_iff.1 h
    rw [Cuts, List.erase_append]
    split <;> simp [hs]

end Spot

namespace Place

/-- The spots that nodes go to on one way, below the parent `p`. -/
def LeadsTo (target p : NodeId) (spot : Spot) : Place → Prop
  | .append => spot = .lastIn target
  | .prepend => p = target ∧ ∃ child, spot = frontOf target child
  | .before => spot = .before target
  | .after => ∃ anchor, spot = .after anchor

theorem cuts_frontOf {child : Option NodeId} :
    (frontOf p child).Cuts left right ↔ right.head? = child := by
  cases child with
  | none => exact List.head?_eq_none_iff.symm
  | some c => exact Iff.rfl

/-- The children of `p` are cut in two where nodes are to be placed. -/
def Meets (d : Document) (target p : NodeId) (left right : List NodeId) : Place → Prop
  | .append => p = target ∧ right = []
  | .prepend => p = target ∧ left = []
  | .before => d.parent? target = some p ∧ right.head? = some target
  | .after => d.parent? target = some p ∧ left.getLast? = some target

/-- The row that nodes make up in the end. -/
def row (target : NodeId) (ns : List NodeId) (way : Place) : List NodeId :=
  if way = .before ∧ target ∈ ns then ns.erase target ++ [target] else ns

end Place

namespace Document

/-! The spot where the next node goes. -/

/-- The next node goes to a spot that cuts the children of `p`. -/
structure AtSpot (d : Document) (way : Place) (target p : NodeId) (spot : Spot)
    (left right : List NodeId) : Prop where
  isAllocated : d.isAllocated p
  children : d.children p = left ++ right
  parent? : spot.parent? d = some p
  cuts : spot.Cuts left right
  leads : way.LeadsTo target p spot

theorem erase_append_of_nodup (h : (left ++ right).Nodup) (n : NodeId) :
    (left ++ right).erase n = left.erase n ++ right.erase n := by
  rw [h.erase_eq_filter, List.filter_append, h.of_append_left.erase_eq_filter,
    h.of_append_right.erase_eq_filter]

section Putting
variable (h : d.WellFormed) (hat : d.AtSpot way target p spot left right)
include h hat

theorem AtSpot.children_put (n : NodeId) :
    (d.put spot n).children p = left.erase n ++ n :: right.erase n ∧
      ∀ q ≠ p, (d.put spot n).children q = (d.children q).erase n := by
  have hnodup := h.nodup_children p
  rw [hat.children] at hnodup
  have herase := erase_append_of_nodup hnodup n
  by_cases hnext : spot.isNextTo n
  · rw [put_of_isNextTo hnext, hat.children]
    have hcuts := hat.cuts
    have hparent := hat.parent?
    rw [parent?_of_isNextTo hnext] at hparent
    refine ⟨?_, fun q hq => (List.erase_of_not_mem fun hn => hq ?_).symm⟩
    · cases spot with
      | firstIn p => cases hnext
      | lastIn p => cases hnext
      | before s =>
        obtain rfl : s = n := by simpa [Spot.isNextTo] using hnext
        obtain ⟨rest, rfl⟩ := List.head?_eq_some_iff.1 hcuts
        rw [List.nodup_middle, List.nodup_cons, List.mem_append, not_or] at hnodup
        rw [List.erase_of_not_mem hnodup.1.1, List.erase_cons_head]
      | after s =>
        obtain rfl : s = n := by simpa [Spot.isNextTo] using hnext
        obtain ⟨init, rfl⟩ := List.getLast?_eq_some_iff.1 hcuts
        rw [List.append_assoc, List.singleton_append, List.nodup_middle, List.nodup_cons,
          List.mem_append, not_or] at hnodup
        rw [List.erase_append_right _ hnodup.1.1, List.erase_of_not_mem hnodup.1.2]
        simp
    · exact Option.some.inj ((h.parent?_eq_some_iff.2 hn).symm.trans hparent)
  · have hchildren := h.children_put hnext hat.parent? hat.isAllocated
    have hdistinct := hnodup.erase n
    rw [herase] at hdistinct
    refine ⟨?_, fun q hq => (hchildren q).trans (if_neg hq)⟩
    rw [hchildren, if_pos rfl, hat.children, herase,
      Spot.insertInto_of_cuts (hat.cuts.erase hnext) hdistinct]

/-- The next node goes between the nodes that are placed and what stood behind the spot, except that a
target does not make room for what is placed before it. -/
theorem AtSpot.next (hn : d.isAllocated n) (hput : (d.put spot n).WellFormed)
    (hself : way = .before → n ≠ target) :
    (d.put spot n).AtSpot way target p (way.nextSpot (d.put spot n) target n spot)
      (left.erase n ++ [n]) (right.erase n) := by
  have hchildren := (hat.children_put h n).1
  have hfollowing := hput.following_of_children hchildren
  have hleads := hat.leads
  have hcuts := hat.cuts
  refine ⟨(extends_put d spot n).isAllocated hat.isAllocated, by rw [hchildren]; simp,
    Place.parent?_nextSpot hput hn hat.parent? ?_, ?_, ?_⟩
  · rintro rfl
    exact hleads.1
  · cases way with
    | append =>
      obtain rfl : spot = .lastIn target := hleads
      exact hcuts.erase Bool.false_ne_true
    | prepend =>
      obtain ⟨rfl, child, rfl⟩ := hleads
      rw [Place.nextSpot]
      split
      · exact Place.cuts_frontOf.2 (by rw [hfollowing])
      · rename_i hnext
        exact Place.cuts_frontOf.2 (Place.cuts_frontOf.1 (hcuts.erase hnext))
    | before =>
      obtain rfl : spot = .before target := hleads
      exact hcuts.erase (by simpa [Spot.isNextTo] using (hself rfl).symm)
    | after => exact List.getLast?_concat
  · cases way with
    | append => exact hleads
    | prepend =>
      refine ⟨hleads.1, ?_⟩
      rw [Place.nextSpot]
      split
      · exact ⟨_, rfl⟩
      · exact hleads.2
    | before => exact hleads
    | after => exact ⟨n, rfl⟩

end Putting

/-! The row. -/

/-- The nodes `ns` have left their places and stand in a row below `p`, between two parts of the children
there; all other nodes keep their parent and their order. -/
structure Lines (d d' : Document) (p : NodeId) (left right ns : List NodeId) : Prop where
  children : d'.children p = left.filter (· ∉ ns) ++ ns ++ right.filter (· ∉ ns)
  children_of_ne : ∀ q ≠ p, d'.children q = (d.children q).filter (· ∉ ns)
  parent? : ∀ m, d'.parent? m = if m ∈ ns then some p else d.parent? m

theorem placeFrom_of_eq_none (h : d.refusal? spot n = none) (way : Place) (target : NodeId)
    (ns : List NodeId) : (d.placeFrom way target spot (n :: ns)).1 =
      ((d.put spot n).placeFrom way target (way.nextSpot (d.put spot n) target n spot) ns).1 := by
  rw [placeFrom, h]
  rfl

theorem extends_placeFrom (d : Document) (way : Place) (target : NodeId) (spot : Spot) (ns : List NodeId) :
    d.Extends (d.placeFrom way target spot ns).1 := by
  induction ns generalizing d spot with
  | nil => exact .refl d
  | cons n ns ih =>
    rw [placeFrom]
    split
    · exact ih d spot
    · exact (extends_put d spot n).trans (ih _ _)

theorem extends_place (d : Document) (way : Place) (target : NodeId) (ns : List NodeId) :
    d.Extends (d.place way target ns).1 := extends_placeFrom ..

/-- Nodes that go to a spot one by one stand there in the order of the list. -/
theorem WellFormed.placeFrom_lines (h : d.WellFormed) (hat : d.AtSpot way target p spot left right)
    (hleaf : ¬ d.isLeaf p) (hnodup : ns.Nodup)
    (hns : ∀ n ∈ ns, d.isAllocated n ∧ ¬ d.LiesIn p n) (hself : way = .before → target ∉ ns) :
    d.Lines (d.placeFrom way target spot ns).1 p left right ns := by
  induction ns generalizing d spot left right with
  | nil => exact ⟨by simp [Document.placeFrom, hat.children], by simp [Document.placeFrom],
      by simp [Document.placeFrom]⟩
  | cons n ns ih =>
    obtain ⟨⟨hn, hpn⟩, hrest⟩ := List.forall_mem_cons.1 hns
    obtain ⟨hnot, hnodup⟩ := List.nodup_cons.1 hnodup
    have haccepted : d.refusal? spot n = none :=
      refusal?_eq_none_iff.2 ⟨p, hat.parent?, .inr (accepts_iff.2 ⟨hleaf, hpn⟩)⟩
    have hmore := extends_put d spot n
    have hput := h.put hn (has_of_parent? hat.parent? hat.isAllocated) haccepted
    have hparent := parent?_put hn hat.parent?
    have hchildren := hat.children_put h n
    have hnext := hat.next h hn hput fun hway heq =>
      hself hway (heq ▸ List.mem_cons_self)
    have hlies (m : NodeId) : (d.put spot n).LiesIn p m ↔ d.LiesIn p m :=
      liesIn_of_avoids (fun x hx => by rw [hparent, if_neg hx]) hpn
    have hlines := ih hput hnext (by rwa [hmore.isLeaf_iff hat.isAllocated]) hnodup
      (fun m hm => (hrest m hm).imp hmore.isAllocated (hlies m).not.2)
      fun hway hmem => hself hway (List.mem_cons_of_mem n hmem)
    have hdistinct := h.nodup_children p
    rw [hat.children] at hdistinct
    rw [placeFrom_of_eq_none haccepted]
    refine ⟨?_, fun q hq => ?_, fun m => ?_⟩
    · rw [hlines.children, List.filter_append, filter_erase hdistinct.of_append_left,
        filter_erase hdistinct.of_append_right]
      simp [hnot]
    · rw [hlines.children_of_ne q hq, hchildren.2 q hq, filter_erase (h.nodup_children q)]
    · rw [hlines.parent?, hparent]
      by_cases hm : m = n <;> simp [hm]

/-! A target among the nodes that are placed before it. -/

/-- A target does not move when it is placed before itself. -/
theorem placeFrom_erase_target (d : Document) (target : NodeId) (hnodup : ns.Nodup) :
    (d.placeFrom .before target (.before target) (ns.erase target)).1 =
      (d.placeFrom .before target (.before target) ns).1 := by
  induction ns generalizing d with
  | nil => rfl
  | cons n ns ih =>
    obtain ⟨hnot, hnodup⟩ := List.nodup_cons.1 hnodup
    by_cases hn : n = target
    · subst hn
      rw [List.erase_cons_head, placeFrom]
      split
      · rfl
      · rw [put_of_isNextTo (by simp [Spot.isNextTo])]
        rfl
    · rw [List.erase_cons_tail (by simpa using hn), placeFrom, placeFrom]
      split
      · exact ih d hnodup
      · exact ih _ hnodup

theorem Lines.close {s : NodeId} (hlines : d.Lines d' p left (s :: right) ns) (h : d.WellFormed)
    (hp : d.children p = left ++ s :: right) (hs : s ∉ ns) :
    d.Lines d' p left (s :: right) (ns ++ [s]) := by
  have hdistinct := h.nodup_children p
  rw [hp, List.nodup_middle, List.nodup_cons, List.mem_append, not_or] at hdistinct
  have hparent : d.parent? s = some p := h.parent?_eq_some_iff.2 (by simp [hp])
  have hfilter {cs : List NodeId} (hcs : s ∉ cs) :
      cs.filter (· ∉ ns ++ [s]) = cs.filter (· ∉ ns) := by
    refine List.filter_congr fun c hc => ?_
    have hne : c ≠ s := fun heq => hcs (heq ▸ hc)
    simp [hne]
  refine ⟨?_, fun q hq => ?_, fun m => ?_⟩
  · rw [hlines.children, List.filter_cons_of_pos (by simpa using hs),
      List.filter_cons_of_neg (by simp), hfilter hdistinct.1.1, hfilter hdistinct.1.2]
    simp
  · rw [hlines.children_of_ne q hq, hfilter fun hmem => hq ?_]
    exact Option.some.inj ((h.parent?_eq_some_iff.2 hmem).symm.trans hparent)
  · rw [hlines.parent?]
    by_cases hm : m = s
    · simp [hm, hparent]
    · simp [hm]

/-! One target. -/

/-- The nodes stand one behind the other at an end of the target's children, or right next to the
target. -/
def StandAt (d : Document) (way : Place) (target : NodeId) (ns : List NodeId) : Prop :=
  match way with
  | .append => ns <:+ d.children target
  | .prepend => ns <+: d.children target
  | .before => ∃ p, d.parent? target = some p ∧ ns ++ [target] <:+: d.children p
  | .after => ∃ p, d.parent? target = some p ∧ target :: ns <:+: d.children p

theorem Lines.standAt (hlines : d.Lines d' p left right ns) (hmeets : way.Meets d target p left right)
    (htarget : target ∉ ns) : d'.StandAt way target ns := by
  have hparent (hp : d.parent? target = some p) : d'.parent? target = some p := by
    rw [hlines.parent?, if_neg htarget, hp]
  cases way with
  | append =>
    obtain ⟨rfl, rfl⟩ := hmeets
    rw [StandAt, hlines.children, List.filter_nil, List.append_nil]
    exact List.suffix_append ..
  | prepend =>
    obtain ⟨rfl, rfl⟩ := hmeets
    rw [StandAt, hlines.children, List.filter_nil, List.nil_append]
    exact List.prefix_append ..
  | before =>
    obtain ⟨hp, hhead⟩ := hmeets
    obtain ⟨rest, rfl⟩ := List.head?_eq_some_iff.1 hhead
    refine ⟨p, hparent hp, left.filter (· ∉ ns), rest.filter (· ∉ ns), ?_⟩
    rw [hlines.children, List.filter_cons_of_pos (by simpa using htarget)]
    simp
  | after =>
    obtain ⟨hp, hlast⟩ := hmeets
    obtain ⟨init, rfl⟩ := List.getLast?_eq_some_iff.1 hlast
    refine ⟨p, hparent hp, init.filter (· ∉ ns), right.filter (· ∉ ns), ?_⟩
    rw [hlines.children, List.filter_append, List.filter_cons_of_pos (by simpa using htarget)]
    simp

theorem WellFormed.exists_atSpot (h : d.WellFormed) (htarget : d.isAllocated target)
    (hrefuses : ¬ d.refuses way target) :
    ∃ p left right, way.Meets d target p left right ∧
      d.AtSpot way target p (way.spot d target) left right ∧ ¬ d.isLeaf p := by
  have hbeside (hnone : ¬ (d.parent? target).isNone) :
      ∃ p left right, d.parent? target = some p ∧ d.children p = left ++ target :: right := by
    obtain ⟨p, hp⟩ := Option.ne_none_iff_exists'.1 fun heq => hnone (Option.isNone_iff_eq_none.2 heq)
    obtain ⟨left, right, hchildren⟩ := List.append_of_mem (h.parent?_eq_some_iff.1 hp)
    exact ⟨p, left, right, hp, hchildren⟩
  cases way with
  | append =>
    exact ⟨target, d.children target, [], ⟨rfl, rfl⟩,
      ⟨htarget, (List.append_nil _).symm, rfl, rfl, rfl⟩, hrefuses⟩
  | prepend =>
    refine ⟨target, [], d.children target, ⟨rfl, rfl⟩,
      ⟨htarget, rfl, Place.parent?_frontOf fun c hc => ?_, Place.cuts_frontOf.2 rfl, rfl, _, rfl⟩,
      hrefuses⟩
    exact h.parent?_eq_some_iff.2 (List.mem_of_mem_head? (Option.mem_def.2 hc))
  | before =>
    obtain ⟨p, left, right, hp, hchildren⟩ := hbeside hrefuses
    exact ⟨p, left, target :: right, ⟨hp, rfl⟩, ⟨h.isAllocated_parent hp, hchildren, hp, rfl, rfl⟩,
      h.not_isLeaf_parent hp⟩
  | after =>
    obtain ⟨p, left, right, hp, hchildren⟩ := hbeside hrefuses
    refine ⟨p, left ++ [target], right, ⟨hp, List.getLast?_concat⟩,
      ⟨h.isAllocated_parent hp, ?_, hp, List.getLast?_concat, _, rfl⟩, h.not_isLeaf_parent hp⟩
    rw [hchildren, List.append_assoc, List.singleton_append]

/-- Where a row begins: none of its nodes is above the spot, so all of them arrive. -/
theorem WellFormed.exists_row_spot (h : d.WellFormed) (htarget : d.isAllocated target)
    (hrefuses : ¬ d.refuses way target) (hns : ∀ n ∈ ns, d.isAllocated n ∧ ¬ d.isWithin target n)
    (hinside : way.isBeside = false → target ∉ ns) :
    ∃ p left right, way.Meets d target p left right ∧
      d.AtSpot way target p (way.spot d target) left right ∧ ¬ d.isLeaf p ∧
      (∀ n ∈ ns, d.isAllocated n ∧ ¬ d.LiesIn p n) ∧ (d.place way target ns).2 = ns := by
  obtain ⟨p, left, right, hmeets, hat, hleaf⟩ := h.exists_atSpot htarget hrefuses
  have hout : ∀ n ∈ ns, d.isAllocated n ∧ ¬ d.LiesIn p n := by
    refine fun n hn => (hns n hn).imp_right fun hfree hlies => ?_
    have hbeside (hp : d.parent? target = some p) : d.isWithin target n :=
      (isWithin_iff_of_parent? hp).2 hlies
    cases way with
    | append =>
      obtain rfl := hmeets.1
      exact hlies.elim (fun heq => hinside rfl (heq ▸ hn)) hfree
    | prepend =>
      obtain rfl := hmeets.1
      exact hlies.elim (fun heq => hinside rfl (heq ▸ hn)) hfree
    | before => exact hfree (hbeside hmeets.1)
    | after => exact hfree (hbeside hmeets.1)
  refine ⟨p, left, right, hmeets, hat, hleaf, hout, ?_⟩
  refine h.placeFrom_eq hout hat.parent? hat.isAllocated hleaf ?_
  rintro rfl
  exact hmeets.1

theorem WellFormed.place_lines (h : d.WellFormed) (htarget : d.isAllocated target)
    (hrefuses : ¬ d.refuses way target) (hnodup : ns.Nodup)
    (hns : ∀ n ∈ ns, d.isAllocated n ∧ ¬ d.isWithin target n) (hnot : target ∉ ns) :
    (d.place way target ns).2 = ns ∧ (d.place way target ns).1.StandAt way target ns ∧
      ∃ p left right, way.Meets d target p left right ∧ d.children p = left ++ right ∧
        d.Lines (d.place way target ns).1 p left right ns := by
  obtain ⟨p, left, right, hmeets, hat, hleaf, hout, hall⟩ :=
    h.exists_row_spot htarget hrefuses hns fun _ => hnot
  have hlines := h.placeFrom_lines hat hleaf hnodup hout fun _ => hnot
  exact ⟨hall, hlines.standAt hmeets hnot, p, left, right, hmeets, hat.children, hlines⟩

/-- Nodes that go to a target one by one all arrive. They stand in a row, in the order of the list, at
that end of the target's children or at that side of the target which was asked for, and all other nodes
keep their parent and their order. The row ends with a target that is itself placed before itself. -/
theorem WellFormed.place_in_row (h : d.WellFormed) (htarget : d.isAllocated target)
    (hrefuses : ¬ d.refuses way target) (hnodup : ns.Nodup)
    (hns : ∀ n ∈ ns, d.isAllocated n ∧ ¬ d.isWithin target n)
    (hinside : way.isBeside = false → target ∉ ns) :
    (d.place way target ns).2 = ns ∧ (target ∉ ns → (d.place way target ns).1.StandAt way target ns) ∧
      ∃ p left right, way.Meets d target p left right ∧ d.children p = left ++ right ∧
        d.Lines (d.place way target ns).1 p left right (way.row target ns) := by
  obtain ⟨p, left, right, hmeets, hat, hleaf, hout, hall⟩ :=
    h.exists_row_spot htarget hrefuses hns hinside
  have hrow : d.Lines (d.place way target ns).1 p left right (way.row target ns) := by
    rw [Place.row]
    split
    · rename_i hself
      obtain ⟨rfl, hmem⟩ := hself
      have hnot : target ∉ ns.erase target := hnodup.not_mem_erase
      have hlines := h.placeFrom_lines hat hleaf (hnodup.erase target)
        (fun n hn => hout n (List.mem_of_mem_erase hn)) fun _ => hnot
      obtain ⟨rest, rfl⟩ := List.head?_eq_some_iff.1 hmeets.2
      rw [Place.spot, placeFrom_erase_target d target hnodup] at hlines
      exact hlines.close h hat.children hnot
    · rename_i hself
      exact h.placeFrom_lines hat hleaf hnodup hout fun hway hmem => hself ⟨hway, hmem⟩
  refine ⟨hall, fun hnot => ?_, p, left, right, hmeets, hat.children, hrow⟩
  rw [Place.row, if_neg fun hself => hnot hself.2] at hrow
  exact hrow.standAt hmeets hnot

/-- Behind the second of three children go that child itself, its sibling before it and a node from
elsewhere. -/
theorem place_in_row_after :
    let d : Document := { slots := #[
      some { kind := .element { tag := "div" }, children := [1, 2, 3] },
      some { kind := .element { tag := "i" }, parent := some 0 },
      some { kind := .element { tag := "b" }, parent := some 0 },
      some { kind := .element { tag := "u" }, parent := some 0 },
      some { kind := .text "and" }] }
    let d' := (d.place .after 2 [1, 4, 2]).1
    d.WellFormed ∧ ¬ d.refuses .after 2 ∧ (d.place .after 2 [1, 4, 2]).2 = [1, 4, 2] ∧
      d'.parent? 4 = some 0 ∧ d'.parent? 3 = some 0 ∧ [1, 4, 2] <:+: d'.children 0 := by
  intro d d'
  have h : d.WellFormed := by decide +kernel
  have hrefuses : ¬ d.refuses .after 2 := by decide +kernel
  obtain ⟨hall, -, p, left, right, hmeets, -, hlines⟩ := @WellFormed.place_in_row d 2 .after [1, 4, 2] h
    (by decide +kernel) hrefuses (by decide +kernel) (by decide +kernel) nofun
  obtain rfl : 0 = p := Option.some.inj ((by decide +kernel : d.parent? 2 = some 0).symm.trans hmeets.1)
  refine ⟨h, hrefuses, hall, hlines.parent? 4, (hlines.parent? 3).trans (by decide +kernel), ?_⟩
  rw [hlines.children]
  exact List.infix_append _ _ _

/-- The `b` stays where it is when it is itself placed before itself, and so does not come before the
`i` that the list names next. -/
theorem not_place_in_order : ¬ ∀ (d : Document) (way : Place) (target : NodeId) (ns : List NodeId),
    d.WellFormed → d.isAllocated target → ¬ d.refuses way target → ns.Nodup →
    (∀ n ∈ ns, d.isAllocated n ∧ ¬ d.isWithin target n) → (way.isBeside = false → target ∉ ns) →
    way.isBeside = true → ∀ p, d.parent? target = some p → ns <:+: (d.place way target ns).1.children p := by
  intro horder
  have hrow := horder { slots := #[
      some { kind := .element { tag := "div" }, children := [1, 2, 3] },
      some { kind := .element { tag := "i" }, parent := some 0 },
      some { kind := .element { tag := "b" }, parent := some 0 },
      some { kind := .element { tag := "u" }, parent := some 0 }] } .before 2 [2, 1]
    (by decide +kernel) (by decide +kernel) (by decide +kernel) (by decide +kernel) (by decide +kernel)
    nofun rfl 0 (by decide +kernel)
  exact absurd hrow (by decide +kernel)

end Document
end DomQuery
