import DomQuery.Proofs.Document.Contiguity
import DomQuery.Proofs.Document.Likeness

/-!
Content for several targets. The first target gets the nodes themselves, and each other one copies of
them in the same order; who comes later disturbs neither the rows that stand already nor what the copies
are taken from.
-/
namespace DomQuery.Document
variable {d d' d'' e read source : Document} {n m p target t : NodeId} {way : Place}
  {ns left right originals targets group : List NodeId}

/-! Rows that stand. -/

theorem infix_insert {s : NodeId} (hcut : right.head? = some s ∨ left.getLast? = some s)
    (hs : s ∉ ns) (h : ns <:+: left ++ right) (middle : List NodeId) :
    ns <:+: left ++ middle ++ right := by
  rcases List.infix_append_iff.1 h with hleft | hright | ⟨front, back, rfl, hfront, hback⟩
  · exact hleft.trans ((List.prefix_append left _).trans (List.prefix_append _ right)).isInfix
  · exact hright.trans (List.suffix_append _ right).isInfix
  · rw [List.mem_append, not_or] at hs
    rcases hcut with hhead | hlast
    · obtain ⟨rest, rfl⟩ := List.head?_eq_some_iff.1 hhead
      rcases List.prefix_cons_iff.1 hback with rfl | ⟨back, rfl, -⟩
      · rw [List.append_nil]
        exact hfront.isInfix.trans ((List.prefix_append left _).trans (List.prefix_append _ _)).isInfix
      · exact absurd List.mem_cons_self hs.2
    · obtain ⟨init, rfl⟩ := List.getLast?_eq_some_iff.1 hlast
      rcases List.suffix_concat_iff.1 hfront with rfl | ⟨front, rfl, -⟩
      · exact hback.isInfix.trans (List.suffix_append _ right).isInfix
      · exact absurd List.mem_concat_self hs.1

theorem parent_of_meets (hmeets : way.Meets d target p left right) :
    p = target ∨ d.parent? target = some p := by
  cases way with
  | append => exact .inl hmeets.1
  | prepend => exact .inl hmeets.1
  | before => exact .inr hmeets.1
  | after => exact .inr hmeets.1

section Bare
variable (h : d.WellFormed) (hlines : d.Lines d' p left right ns) (hbare : ∀ n ∈ ns, d.parent? n = none)
include h hlines hbare

theorem Lines.children_of_bare :
    (d.children p = left ++ right → d'.children p = left ++ ns ++ right) ∧
      ∀ q ≠ p, d'.children q = d.children q := by
  have hkeep {cs : List NodeId} {q : NodeId} (hcs : ∀ c ∈ cs, c ∈ d.children q) :
      cs.filter (· ∉ ns) = cs := by
    refine List.filter_eq_self.2 fun c hc => decide_eq_true fun hmem => ?_
    have hparent := h.parent?_eq_some_iff.2 (hcs c hc)
    rw [hbare c hmem] at hparent
    cases hparent
  refine ⟨fun hp => ?_, fun q hq => (hlines.children_of_ne q hq).trans (hkeep fun _ => id)⟩
  rw [hlines.children, hkeep (q := p) fun c hc => ?_, hkeep (q := p) fun c hc => ?_]
  · exact hp ▸ List.mem_append_right left hc
  · exact hp ▸ List.mem_append_left right hc

theorem Lines.standAt_of_bare (hmeets : way.Meets d target p left right)
    (hp : d.children p = left ++ right) (ht : t ∉ ns) (hne : t ≠ target) (htarget : target ∉ group)
    (hstand : d.StandAt way t group) : d'.StandAt way t group := by
  obtain ⟨hgrown, hsame⟩ := hlines.children_of_bare h hbare
  have hparent : d'.parent? t = d.parent? t := (hlines.parent? t).trans (if_neg ht)
  have hrow {q : NodeId} {row : List NodeId} (hrow : row <:+: d.children q) (hnot : target ∉ row)
      (hcut : right.head? = some target ∨ left.getLast? = some target) : row <:+: d'.children q := by
    by_cases hq : q = p
    · subst hq
      rw [hgrown hp]
      rw [hp] at hrow
      exact infix_insert hcut hnot hrow ns
    · rwa [hsame q hq]
  cases way with
  | append =>
    obtain rfl := hmeets.1
    rwa [StandAt, hsame t hne]
  | prepend =>
    obtain rfl := hmeets.1
    rwa [StandAt, hsame t hne]
  | before =>
    obtain ⟨q, hq, hinfix⟩ := hstand
    refine ⟨q, hparent.trans hq, hrow hinfix ?_ (.inl hmeets.2)⟩
    simp [htarget, hne.symm]
  | after =>
    obtain ⟨q, hq, hinfix⟩ := hstand
    refine ⟨q, hparent.trans hq, hrow hinfix ?_ (.inr hmeets.2)⟩
    simp [htarget, hne.symm]

end Bare

theorem Grows.standAt (h : d.Grows d') (hd : d.WellFormed) (ht : t < d.fresh)
    (hstand : d.StandAt way t group) : d'.StandAt way t group := by
  cases way with
  | append => rwa [StandAt, h.children_of_lt ht]
  | prepend => rwa [StandAt, h.children_of_lt ht]
  | before =>
    obtain ⟨q, hq, hinfix⟩ := hstand
    refine ⟨q, (h.parent?_of_lt ht).trans hq, ?_⟩
    rwa [h.children_of_lt (lt_fresh (hd.isAllocated_parent hq))]
  | after =>
    obtain ⟨q, hq, hinfix⟩ := hstand
    refine ⟨q, (h.parent?_of_lt ht).trans hq, ?_⟩
    rwa [h.children_of_lt (lt_fresh (hd.isAllocated_parent hq))]

theorem WellFormed.liesIn_iff_of_lt (h : d.WellFormed) (hsame : ∀ m < d.fresh, d'.parent? m = d.parent? m)
    (hm : m < d.fresh) : d'.LiesIn m n ↔ d.LiesIn m n := by
  rw [liesIn_iff, liesIn_iff]
  constructor
  · intro hwalk
    induction hwalk using Relation.ReflTransGen.head_induction_on with
    | refl => exact .refl
    | @head a b hstep _ ih =>
      have hab : d.parent? a = some b := (hsame a hm).symm.trans hstep
      exact .head hab (ih (lt_fresh (h.isAllocated_parent hab)))
  · intro hwalk
    refine Relation.ReflTransGen.mono (fun a b hab => ?_) m n hwalk
    exact (hsame a (lt_fresh (isAllocated_of_parent? hab))).trans hab

def host? (d : Document) (way : Place) (target : NodeId) : Option NodeId :=
  if way.isBeside then d.parent? target else some target

theorem host?_of_meets (hmeets : way.Meets d target p left right) : d.host? way target = some p := by
  cases way with
  | append => exact congrArg some hmeets.1.symm
  | prepend => exact congrArg some hmeets.1.symm
  | before => exact hmeets.1
  | after => exact hmeets.1

theorem WellFormed.exists_host (h : d.WellFormed) (ht : d.isAllocated target)
    (hrefuses : ¬ d.refuses way target) : ∃ p, d.host? way target = some p ∧ d.isAllocated p := by
  rw [refuses] at hrefuses
  rw [host?]
  split
  · rename_i hbeside
    rw [if_pos hbeside, Option.isNone_iff_eq_none, ← ne_eq, Option.ne_none_iff_exists'] at hrefuses
    obtain ⟨p, hp⟩ := hrefuses
    exact ⟨p, hp, h.isAllocated_parent hp⟩
  · exact ⟨target, rfl, ht⟩

/-- New nodes have come in at the targets, and nothing that was there has moved. -/
structure Receives (d d' : Document) (way : Place) (targets : List NodeId) : Prop where
  wellFormed : d'.WellFormed
  fresh_le : d.fresh ≤ d'.fresh
  data? : ∀ n < d.fresh, d'.data? n = d.data? n
  parent? : ∀ n < d.fresh, d'.parent? n = d.parent? n
  children : ∀ n < d.fresh, (∀ t ∈ targets, t ≠ n ∧ d.parent? t ≠ some n) → d'.children n = d.children n
  /-- A row at another target is still whole. -/
  standAt : ∀ t group, t < d.fresh → t ∉ targets → (∀ s ∈ targets, s ∉ group) →
    d.StandAt way t group → d'.StandAt way t group

namespace Receives

theorem of_grows (hgrows : d.Grows e) (hd : d.WellFormed) (he : e.WellFormed) : d.Receives e way [] where
  wellFormed := he
  fresh_le := hgrows.fresh_le
  data? := hgrows.toExtends.data?
  parent? _ hn := hgrows.parent?_of_lt hn
  children _ hn _ := hgrows.children_of_lt hn
  standAt _ _ ht _ _ hstand := hgrows.standAt hd ht hstand

theorem isAllocated (h : d.Receives d' way targets) (hn : d.isAllocated n) : d'.isAllocated n :=
  (isAllocated_congr (h.data? n (lt_fresh hn))).2 hn

theorem append {more : List NodeId} (h : d.Receives d' way targets) (h' : d'.Receives d'' way more)
    (hmore : ∀ t ∈ more, t < d.fresh) : d.Receives d'' way (targets ++ more) where
  wellFormed := h'.wellFormed
  fresh_le := Nat.le_trans h.fresh_le h'.fresh_le
  data? n hn := (h'.data? n (Nat.lt_of_lt_of_le hn h.fresh_le)).trans (h.data? n hn)
  parent? n hn := (h'.parent? n (Nat.lt_of_lt_of_le hn h.fresh_le)).trans (h.parent? n hn)
  children n hn hfree := by
    obtain ⟨hfirst, hrest⟩ := List.forall_mem_append.1 hfree
    refine (h'.children n (Nat.lt_of_lt_of_le hn h.fresh_le) fun t ht => ?_).trans
      (h.children n hn hfirst)
    rw [h.parent? t (hmore t ht)]
    exact hrest t ht
  standAt t group ht hnot hfree hstand := by
    obtain ⟨hfirst, hrest⟩ := List.forall_mem_append.1 hfree
    rw [List.mem_append, not_or] at hnot
    exact h'.standAt t group (Nat.lt_of_lt_of_le ht h.fresh_le) hnot.2 hrest
      (h.standAt t group ht hnot.1 hfirst hstand)

theorem refuses_eq (h : d.Receives d' way targets) (ht : t < d.fresh) :
    d'.refuses way t = d.refuses way t := by
  rw [refuses, refuses, h.parent? t ht, isLeaf_congr (h.data? t ht)]

theorem host?_eq (h : d.Receives d' way targets) (ht : t < d.fresh) : d'.host? way t = d.host? way t := by
  rw [host?, host?, h.parent? t ht]

theorem liesIn_iff (h : d.Receives d' way targets) (hd : d.WellFormed) (hm : m < d.fresh) :
    d'.LiesIn m n ↔ d.LiesIn m n := hd.liesIn_iff_of_lt h.parent? hm

theorem alike (h : d.Receives d' way targets) (hd : d.WellFormed) (hn : d.isAllocated n)
    (hout : ∀ t ∈ targets, ¬ d.LiesIn t n) : d.Alike d' n n := by
  refine hd.alike_of_same fun m hm => ?_
  have hlt := lt_fresh (hm.isAllocated hn)
  refine ⟨h.data? m hlt, h.children m hlt fun t ht => ⟨fun heq => ?_, fun hp => ?_⟩⟩
  · exact hout t ht (heq ▸ hm)
  · exact hout t ht (.trans (.inr (isWithin_of_parent? hp)) hm)

end Receives

theorem Grows.old_of_meets (h : d.Grows e) (hd : d.WellFormed) (ht : d.isAllocated target)
    (hmeets : way.Meets e target p left right) :
    p < d.fresh ∧ (p = target ∨ d.parent? target = some p) := by
  rcases parent_of_meets hmeets with rfl | hp
  · exact ⟨lt_fresh ht, .inl rfl⟩
  · rw [h.parent?_of_lt (lt_fresh ht)] at hp
    exact ⟨lt_fresh (hd.isAllocated_parent hp), .inr hp⟩

theorem Lines.receives (hlines : e.Lines d' p left right ns) (hd : d.WellFormed) (he : e.WellFormed)
    (hd' : d'.WellFormed) (hgrows : d.Grows e) (hmore : e.Extends d')
    (hnew : ∀ n ∈ ns, d.fresh ≤ n ∧ e.parent? n = none) (ht : d.isAllocated target)
    (hmeets : way.Meets e target p left right) (hp : e.children p = left ++ right) :
    d.Receives d' way [target] := by
  have hold {n : NodeId} (hn : n < d.fresh) : n ∉ ns := fun hmem => Nat.not_lt_of_le (hnew n hmem).1 hn
  have hbare (n : NodeId) (hn : n ∈ ns) := (hnew n hn).2
  obtain ⟨-, hsame⟩ := hlines.children_of_bare he hbare
  obtain ⟨-, hparent⟩ := hgrows.old_of_meets hd ht hmeets
  have hkept := hgrows.toExtends.trans hmore
  refine ⟨hd', hkept.fresh_le, hkept.data?, fun n hn => ?_, fun n hn hfree => ?_,
    fun t group htold hne hfree hstands => ?_⟩
  · rw [hlines.parent?, if_neg (hold hn), hgrows.parent?_of_lt hn]
  · obtain ⟨hself, hbelow⟩ := hfree target List.mem_cons_self
    rw [hsame n, hgrows.children_of_lt hn]
    rintro rfl
    exact hparent.elim (fun heq => hself heq.symm) hbelow
  · exact hlines.standAt_of_bare he hbare hmeets hp (hold htold) (by simpa using hne)
      (hfree target List.mem_cons_self) (hgrows.standAt hd htold hstands)

/-! Copies. -/

theorem Grows.alike (h : d.Grows d') (hd : d.WellFormed) (hn : d.isAllocated n) : d.Alike d' n n :=
  hd.alike_of_same fun m hm => by
    have hlt := lt_fresh (hm.isAllocated hn)
    exact ⟨h.toExtends.data? m hlt, h.children_of_lt hlt⟩

theorem WellFormed.copy_alike (h : d.WellFormed) (hn : d.isAllocated n) (hgrows : (d.copy n true).1.Grows e) :
    d.Alike e n (d.copy n true).2 :=
  h.alike_plantUnder hn (Nat.le_add_right ..) d none e fun m _ hm => hgrows.node? m hm

theorem WellFormed.copyAll_alike (h : d.WellFormed) (hns : ∀ n ∈ ns, d.isAllocated n) :
    List.Forall₂ (d.Alike (d.copyAll ns).1) ns (d.copyAll ns).2 ∧ (d.copyAll ns).2.Nodup := by
  induction ns generalizing d with
  | nil => exact ⟨.nil, List.nodup_nil⟩
  | cons n ns ih =>
    obtain ⟨hn, hrest⟩ := List.forall_mem_cons.1 hns
    have hadds := h.adds_copy n true
    have hadds' := hadds.wellFormed.adds_copyAll ns
    obtain ⟨halike, hnodup⟩ :=
      ih hadds.wellFormed fun m hm => hadds.grows.toExtends.isAllocated (hrest m hm)
    have hsame : List.Forall₂ (d.Alike (d.copy n true).1) ns ns :=
      List.forall₂_same.2 fun m hm => hadds.grows.alike h (hrest m hm)
    rw [copyAll]
    refine ⟨.cons (h.copy_alike hn hadds'.grows) ?_, List.nodup_cons.2 ⟨fun hmem => ?_, hnodup⟩⟩
    · exact h.alike_trans_all hsame halike
    · have hlt := lt_fresh (hadds.of_mem _ List.mem_cons_self).2
      exact Nat.not_lt_of_le (hadds'.of_mem _ hmem).1 hlt

/-! Rows for several targets. -/

theorem WellFormed.lt_of_liesIn (h : d.WellFormed) (hm : m < d.fresh) (hlies : d.LiesIn m n) :
    n < d.fresh := by
  rcases hlies with rfl | hwithin
  · exact hm
  · exact h.lt_size_of_isWithin hwithin

/-- The row at a target consists of new nodes that are like the heads one by one. -/
structure Row (source d d' : Document) (way : Place) (heads : List NodeId) (target : NodeId)
    (row : List NodeId) : Prop where
  alike : List.Forall₂ (source.Alike d') heads row
  parent? : ∀ n ∈ row, d'.parent? n = d.host? way target
  new : ∀ n ∈ row, d.fresh ≤ n ∧ d'.isAllocated n

/-- The rows at several targets: one row of nodes like the originals for each target. -/
def Rows (d d' : Document) (way : Place) (originals targets : List NodeId) (rows : List (List NodeId)) :
    Prop :=
  List.Forall₂ (fun t row => d'.StandAt way t row ∧ List.Forall₂ (d.Alike d') originals row) targets rows

/-- Each of the targets has got a row, and nothing else has come in below what was there. -/
structure Supplies (source d d' : Document) (way : Place) (heads targets : List NodeId)
    (rows : List (List NodeId)) : Prop where
  receives : d.Receives d' way targets
  row : List.Forall₂ (Row source d d' way heads) targets rows
  /-- The rows are whole, unless one target has got several. -/
  standAt : targets.Nodup → List.Forall₂ (d'.StandAt way) targets rows
  nodup : rows.flatten.Nodup
  mem : ∀ n p, d'.parent? n = some p → d.fresh ≤ n → p < d.fresh → n ∈ rows.flatten

namespace Supplies
variable {heads later : List NodeId} {rows more : List (List NodeId)}

theorem exists_row (h : Supplies source d d' way heads targets rows) (hn : n ∈ rows.flatten) :
    ∃ t ∈ targets, ∃ row, n ∈ row ∧ Row source d d' way heads t row := by
  obtain ⟨row, hrow, hn⟩ := List.mem_flatten.1 hn
  obtain ⟨t, ht, hrow⟩ := exists_of_forall₂ h.row hrow
  exact ⟨t, ht, row, hn, hrow⟩

theorem new (h : Supplies source d d' way heads targets rows) (hn : n ∈ rows.flatten) :
    d.fresh ≤ n ∧ d'.isAllocated n := by
  obtain ⟨_, -, _, hn, hrow⟩ := h.exists_row hn
  exact hrow.new n hn

theorem of_grows (hgrows : d.Grows e) (hd : d.WellFormed) (he : e.WellFormed) :
    Supplies source d e way heads [] [] where
  receives := .of_grows hgrows hd he
  row := .nil
  standAt _ := .nil
  nodup := List.nodup_nil
  mem n p hp hn hlt := absurd ((hgrows.apart n p hp).1 hn) (Nat.not_le_of_lt hlt)

theorem of_alike {nodes : List NodeId} (hsource : source.WellFormed)
    (halike : List.Forall₂ (source.Alike e) heads nodes)
    (h : Supplies e d d' way nodes targets rows) : Supplies source d d' way heads targets rows :=
  { h with
    row := h.row.imp fun _ _ hrow =>
      { hrow with alike := hsource.alike_trans_all halike hrow.alike } }

theorem append (hd : d.WellFormed) (hsource : source.WellFormed)
    (hold : ∀ t ∈ targets ++ later, t < d.fresh) (h : Supplies source d d' way heads targets rows)
    (h' : Supplies source d' d'' way heads later more) :
    Supplies source d d'' way heads (targets ++ later) (rows ++ more) := by
  obtain ⟨hfirst, hlater⟩ := List.forall_mem_append.1 hold
  have hapart {row : List NodeId} (hrow : ∀ n ∈ row, d.fresh ≤ n) (t : NodeId) (ht : t ∈ later) :
      t ∉ row := fun hmem => Nat.not_lt_of_le (hrow t hmem) (hlater t ht)
  refine ⟨h.receives.append h'.receives hlater, ?_, fun hnodup => ?_, ?_, fun n p hp hn hlt => ?_⟩
  · have hrows := (List.forall₂_and_left later more).2 ⟨hlater, h'.row⟩
    refine List.rel_append (h.row.imp fun t row hrow => ?_) (hrows.imp fun t row ⟨ht, hrow⟩ => ?_)
    · have hkept : List.Forall₂ (d'.Alike d'') row row := by
        refine List.forall₂_same.2 fun n hn => h'.receives.alike h.receives.wellFormed (hrow.new n hn).2
          fun t ht hlies => ?_
        have hlies := (h.receives.liesIn_iff hd (hlater t ht)).1 hlies
        exact Nat.not_lt_of_le (hrow.new n hn).1 (hd.lt_of_liesIn (hlater t ht) hlies)
      exact {
        alike := hsource.alike_trans_all hrow.alike hkept
        parent? := fun n hn =>
          (h'.receives.parent? n (lt_fresh (hrow.new n hn).2)).trans (hrow.parent? n hn)
        new := fun n hn => (hrow.new n hn).imp_right h'.receives.isAllocated }
    · exact {
        alike := hrow.alike
        parent? := fun n hn => (hrow.parent? n hn).trans (h.receives.host?_eq ht)
        new := fun n hn => (hrow.new n hn).imp_left h.receives.fresh_le.trans }
  · obtain ⟨hnodup, hnodup', hdisjoint⟩ := List.nodup_append'.1 hnodup
    have hstand := (List.forall₂_and_left targets rows).2
      ⟨fun t ht => And.intro (hfirst t ht) (hdisjoint ht), h.standAt hnodup⟩
    refine List.rel_append (h.row.mp (fun t row hrow hstand => ?_) hstand) (h'.standAt hnodup')
    obtain ⟨⟨ht, hnot⟩, hstand⟩ := hstand
    exact h'.receives.standAt t row (Nat.lt_of_lt_of_le ht h.receives.fresh_le) hnot
      (hapart fun n hn => (hrow.new n hn).1) hstand
  · rw [List.flatten_append]
    refine List.nodup_append'.2 ⟨h.nodup, h'.nodup, fun n hn hmem => ?_⟩
    exact Nat.not_lt_of_le (h'.new hmem).1 (lt_fresh (h.new hn).2)
  · rw [List.flatten_append, List.mem_append]
    by_cases hnew : n < d'.fresh
    · exact .inl (h.mem n p ((h'.receives.parent? n hnew).symm.trans hp) hn hlt)
    · exact .inr (h'.mem n p hp (Nat.le_of_not_lt hnew)
        (Nat.lt_of_lt_of_le hlt h.receives.fresh_le))

theorem adoptTopLevel (hsource : source.WellFormed) (h : Supplies source d d' way heads targets rows)
    (ns : List NodeId) : Supplies source d (d'.adoptTopLevel ns) way heads targets rows where
  receives := { h.receives with wellFormed := h.receives.wellFormed.of_same_slots rfl }
  row := h.row.imp fun _ row hrow =>
    have hsame : List.Forall₂ (d'.Alike (d'.adoptTopLevel ns)) row row := List.forall₂_same.2 fun _ _ =>
      h.receives.wellFormed.alike_of_same fun _ _ => ⟨rfl, rfl⟩
    { hrow with alike := hsource.alike_trans_all hrow.alike hsame }
  standAt := h.standAt
  nodup := h.nodup
  mem := h.mem

theorem rows_of_nodup (h : Supplies source d d' way heads targets rows) (hnodup : targets.Nodup) :
    Rows source d' way heads targets rows :=
  h.row.mp (fun _ _ hrow hstand => ⟨hstand, hrow.alike⟩) (h.standAt hnodup)

end Supplies

/-! One more target. -/

section Target
variable {heads : List NodeId} (h : d.WellFormed) (hsource : source.WellFormed) (hadds : d.Adds read ns)
  (hbare : ∀ n ∈ ns, read.parent? n = none) (hnodup : ns.Nodup)
  (halike : List.Forall₂ (source.Alike read) heads ns) (ht : d.isAllocated target)
include h hsource hadds hbare hnodup halike ht

theorem Adds.supplies_of_not_refuses (hrefuses : ¬ d.refuses way target) :
    (read.place way target ns).2 = ns ∧
      Supplies source d (read.place way target ns).1 way heads [target] [ns] := by
  have hgrows := hadds.grows
  have hread := hadds.wellFormed
  have hold := lt_fresh ht
  have hnot : target ∉ ns := fun hmem => Nat.not_lt_of_le (hadds.of_mem _ hmem).1 hold
  obtain ⟨hall, hstand, p, left, right, hmeets, hp, hlines⟩ := hread.place_lines
    (hgrows.toExtends.isAllocated ht) (by rwa [hgrows.refuses_eq way hold]) hnodup
    (fun n hn => ⟨(hadds.of_mem n hn).2, fun hwithin =>
      Nat.not_lt_of_le (hadds.of_mem n hn).1 (hgrows.lt_of_isWithin hold hwithin).1⟩) hnot
  have hmore := extends_place read way target ns
  have hplaced : (read.place way target ns).1.WellFormed :=
    (hread.place way (S := fun _ => False) (M := fun _ => True) (fun _ _ _ => id)
      (fun n hn => ⟨(hadds.of_mem n hn).2, trivial⟩)
      ⟨hgrows.toExtends.isAllocated ht, id⟩).1.wellFormed
  have hreceives := hlines.receives h hread hplaced hgrows hmore
    (fun n hn => ⟨(hadds.of_mem n hn).1, hbare n hn⟩) ht hmeets hp
  obtain ⟨-, hsame⟩ := hlines.children_of_bare hread hbare
  obtain ⟨hpold, -⟩ := hgrows.old_of_meets h ht hmeets
  have hkept : List.Forall₂ (read.Alike (read.place way target ns).1) ns ns := by
    refine List.forall₂_same.2 fun c hc => hread.alike_of_same fun m hm => ?_
    have hlt := lt_fresh (hm.isAllocated (hadds.of_mem c hc).2)
    refine ⟨hmore.data? m hlt, hsame m fun heq => ?_⟩
    exact Nat.not_lt_of_le (hgrows.le_of_liesIn hm (hadds.of_mem c hc).1) (heq ▸ hpold)
  have hhost : d.host? way target = some p := by
    rw [← host?_of_meets hmeets, host?, host?, hgrows.parent?_of_lt hold]
  refine ⟨hall, hreceives, .cons ?_ .nil, fun _ => .cons hstand .nil, by simpa using hnodup,
    fun n q hq hn hlt => ?_⟩
  · exact {
      alike := hsource.alike_trans_all halike hkept
      parent? := fun n hn => by rw [hlines.parent?, if_pos hn, hhost]
      new := fun n hn => (hadds.of_mem n hn).imp_right hmore.isAllocated }
  · rw [List.flatten_singleton]
    by_contra hmem
    rw [hlines.parent?, if_neg hmem] at hq
    exact Nat.not_lt_of_le ((hgrows.apart n q hq).1 hn) hlt

/-- Whether a target takes new nodes or refuses them, they are like the heads afterwards. -/
theorem Adds.supplies (way : Place) : ∃ rows, (read.place way target ns).2 = rows.flatten ∧
    Supplies source d (read.place way target ns).1 way heads ([target].filter (!d.refuses way ·)) rows ∧
    List.Forall₂ (source.Alike (read.place way target ns).1) heads ns := by
  by_cases hrefuses : d.refuses way target
  · rw [hadds.wellFormed.place_of_refuses (by rwa [hadds.grows.refuses_eq way (lt_fresh ht)]),
      List.filter_cons_of_neg (by simpa using hrefuses)]
    exact ⟨[], rfl, .of_grows hadds.grows h hadds.wellFormed, halike⟩
  · obtain ⟨hall, hsupplies⟩ :=
      hadds.supplies_of_not_refuses h hsource hbare hnodup halike ht hrefuses
    rw [List.filter_cons_of_pos (by simpa using hrefuses)]
    refine ⟨[ns], by rw [hall, List.flatten_singleton], hsupplies, ?_⟩
    exact (List.forall₂_cons.1 hsupplies.row).1.alike

end Target

/-! All further targets. -/

theorem WellFormed.supplies_placeCopies (h : d.WellFormed) (htargets : ∀ t ∈ targets, d.isAllocated t)
    (horiginals : ∀ n ∈ originals, d.isAllocated n)
    (hout : ∀ n ∈ originals, ∀ t ∈ targets, ¬ d.LiesIn t n) (way : Place) :
    ∃ rows, (d.placeCopies way originals targets).2 = rows.flatten ∧
      Supplies d d (d.placeCopies way originals targets).1 way originals
        (targets.filter (!d.refuses way ·)) rows := by
  induction targets generalizing d with
  | nil => exact ⟨[], rfl, .of_grows (.refl h) h h⟩
  | cons t targets ih =>
    obtain ⟨ht, hrest⟩ := List.forall_mem_cons.1 htargets
    obtain ⟨halike, hdistinct⟩ := h.copyAll_alike horiginals
    obtain ⟨-, -, hbare⟩ := h.copyAll_counted horiginals
    obtain ⟨first, hplaced, hfirst, -⟩ :=
      (h.adds_copyAll originals).supplies h h hbare hdistinct halike ht way
    rw [Document.placeCopies]
    generalize d.copyAll originals = copied at hplaced hfirst
    obtain ⟨read, given⟩ := copied
    dsimp only at hplaced hfirst ⊢
    generalize read.place way t given = placed at hplaced hfirst
    obtain ⟨d₁, copies⟩ := placed
    dsimp only at hplaced hfirst ⊢
    subst hplaced
    have hreceives := hfirst.receives
    have hlt (u : NodeId) (hu : u ∈ targets) : u < d.fresh := lt_fresh (hrest u hu)
    have hsame : List.Forall₂ (d.Alike d₁) originals originals := by
      refine List.forall₂_same.2 fun n hn => hreceives.alike h (horiginals n hn) fun u hu => ?_
      obtain rfl := List.mem_singleton.1 (List.mem_of_mem_filter hu)
      exact hout n hn u List.mem_cons_self
    obtain ⟨rows, hcopies, hsupplies⟩ := ih hreceives.wellFormed
      (fun u hu => hreceives.isAllocated (hrest u hu))
      (fun n hn => hreceives.isAllocated (horiginals n hn))
      fun n hn u hu hlies => hout n hn u (List.mem_cons_of_mem t hu)
        ((hreceives.liesIn_iff h (hlt u hu)).1 hlies)
    have htake : targets.filter (!d₁.refuses way ·) = targets.filter (!d.refuses way ·) :=
      List.filter_congr fun u hu => by rw [hreceives.refuses_eq (hlt u hu)]
    rw [htake] at hsupplies
    refine ⟨first ++ rows, by rw [hcopies, List.flatten_append], ?_⟩
    have hall := hfirst.append h h (fun u hu => ?_) (hsupplies.of_alike h hsame)
    · rwa [← List.filter_append, List.singleton_append] at hall
    · rw [← List.filter_append] at hu
      exact lt_fresh (htargets u (List.mem_of_mem_filter hu))

/-- New nodes for several targets. The first target gets the nodes themselves, unless it refuses them, and
each other one that takes something gets copies. -/
theorem Adds.supplies_distribute {heads : List NodeId} (hadds : d.Adds read ns) (h : d.WellFormed)
    (hsource : source.WellFormed) (hbare : ∀ n ∈ ns, read.parent? n = none) (hnodup : ns.Nodup)
    (halike : List.Forall₂ (source.Alike read) heads ns) (htargets : ∀ t ∈ targets, d.isAllocated t)
    (way : Place) : ∃ rows, (read.distribute way targets ns).2 = rows.flatten ∧
      Supplies source d (read.distribute way targets ns).1 way heads
        (targets.filter (!d.refuses way ·)) rows := by
  cases targets with
  | nil => exact ⟨[], rfl, .of_grows hadds.grows h hadds.wellFormed⟩
  | cons first rest =>
    obtain ⟨ht, hrest⟩ := List.forall_mem_cons.1 htargets
    obtain ⟨row, hplaced, hfirst, hsame⟩ := hadds.supplies h hsource hbare hnodup halike ht way
    have hlt (u : NodeId) (hu : u ∈ rest) : u < d.fresh := lt_fresh (hrest u hu)
    have hgiven (n : NodeId) (hn : n ∈ ns) : (read.place way first ns).1.isAllocated n :=
      (extends_place read way first ns).isAllocated (hadds.of_mem n hn).2
    rw [Document.distribute]
    generalize read.place way first ns = placed at hplaced hfirst hsame hgiven
    obtain ⟨d₁, _⟩ := placed
    dsimp only at hplaced hfirst hsame hgiven ⊢
    subst hplaced
    have hreceives := hfirst.receives
    have hout (n : NodeId) (hn : n ∈ ns) (u : NodeId) (hu : u ∈ rest) : ¬ d₁.LiesIn u n := fun hlies =>
      Nat.not_lt_of_le (hadds.of_mem n hn).1
        (h.lt_of_liesIn (hlt u hu) ((hreceives.liesIn_iff h (hlt u hu)).1 hlies))
    obtain ⟨rows, hcopies, hsupplies⟩ := hreceives.wellFormed.supplies_placeCopies
      (fun u hu => hreceives.isAllocated (hrest u hu)) hgiven hout way
    have htake : rest.filter (!d₁.refuses way ·) = rest.filter (!d.refuses way ·) :=
      List.filter_congr fun u hu => by rw [hreceives.refuses_eq (hlt u hu)]
    rw [htake] at hsupplies
    have hall := hfirst.append h hsource (fun u hu => ?_) (hsupplies.of_alike hsource hsame)
    · rw [← List.filter_append, List.singleton_append] at hall
      refine ⟨row ++ rows, by rw [hcopies, List.flatten_append], ?_⟩
      split
      · exact hall.adoptTopLevel hsource _
      · exact hall
    · rw [← List.filter_append] at hu
      exact lt_fresh (htargets u (List.mem_of_mem_filter hu))

/-! The first target. -/

theorem liesIn_of_unmoved (hsame : ∀ x ∉ ns, d'.parent? x = d.parent? x)
    (hout : ∀ x ∈ ns, ¬ d.LiesIn m x) (hlies : d'.LiesIn m n) : d.LiesIn m n := by
  rw [liesIn_iff] at hlies ⊢
  induction hlies using Relation.ReflTransGen.head_induction_on with
  | refl => exact .refl
  | @head a b hstep _ ih =>
    have ha : a ∉ ns := fun hmem => hout a hmem (.inl rfl)
    have hab : d.parent? a = some b := (hsame a ha).symm.trans hstep
    exact .head hab (ih fun x hx hbx => hout x hx (.trans (.inr (isWithin_of_parent? hab)) hbx))

theorem Lines.alike (hlines : d.Lines d' p left right ns) (h : d.WellFormed) (hmore : d.Extends d')
    (hn : d.isAllocated n) (hp : ¬ d.LiesIn p n) (hapart : ∀ c ∈ ns, ¬ d.isWithin c n) :
    d.Alike d' n n := by
  refine h.alike_of_same fun m hm => ⟨hmore.data? m (lt_fresh (hm.isAllocated hn)), ?_⟩
  have hne : m ≠ p := fun heq => hp (heq ▸ hm)
  rw [hlines.children_of_ne m hne, List.filter_eq_self]
  refine fun c hc => decide_eq_true fun hmem => hapart c hmem ?_
  exact (isWithin_iff_of_parent? (h.parent?_eq_some_iff.2 hc)).2 hm

theorem Rows.adoptTopLevel {rows : List (List NodeId)} (h : d.WellFormed) (hd : d'.WellFormed)
    (hrows : Rows d d' way originals targets rows) (ns : List NodeId) :
    Rows d (d'.adoptTopLevel ns) way originals targets rows := by
  refine List.Forall₂.imp (fun t row hrow => ⟨hrow.1, ?_⟩) hrows
  refine List.Forall₂.imp (fun n c halike => h.alike_trans halike ?_) hrow.2
  exact hd.alike_of_same fun _ _ => ⟨rfl, rfl⟩

section Originals
variable (h : d.WellFormed) (hdistinct : originals.Nodup)
  (horiginals : ∀ n ∈ originals, d.isAllocated n)
  (hapart : ∀ n ∈ originals, ∀ m ∈ originals, ¬ d.isWithin m n)
include h hdistinct horiginals hapart

theorem WellFormed.place_originals (ht : d.isAllocated target) (hrefuses : ¬ d.refuses way target)
    (hout : ∀ n ∈ originals, ¬ d.LiesIn target n) :
    (d.place way target originals).2 = originals ∧ (d.place way target originals).1.WellFormed ∧
      (d.place way target originals).1.StandAt way target originals ∧
      (∀ x ∉ originals, (d.place way target originals).1.parent? x = d.parent? x) ∧
      ∀ n ∈ originals, d.Alike (d.place way target originals).1 n n := by
  have hnot : target ∉ originals := fun hmem => hout target hmem (.inl rfl)
  obtain ⟨hall, hstand, p, left, right, hmeets, -, hlines⟩ := h.place_lines ht hrefuses hdistinct
    (fun n hn => ⟨horiginals n hn, fun hwithin => hout n hn (.inr hwithin)⟩) hnot
  have hplaced := h.place way (S := fun _ => False) (M := fun _ => True) (fun _ _ _ => id)
    (fun n hn => ⟨horiginals n hn, trivial⟩) ⟨ht, id⟩
  refine ⟨hall, hplaced.1.wellFormed, hstand, fun x hx => (hlines.parent? x).trans (if_neg hx),
    fun n hn => hlines.alike h (extends_place ..) (horiginals n hn) ?_ (hapart n hn)⟩
  rcases parent_of_meets hmeets with rfl | hp
  · exact hout n hn
  · exact fun hlies => hout n hn (.trans (.inr (isWithin_of_parent? hp)) hlies)

/-- The first target gets the originals, and each other one a row of copies. -/
theorem WellFormed.distribute_rows {first : NodeId} {rest : List NodeId} (hnodup : (first :: rest).Nodup)
    (htargets : ∀ t ∈ first :: rest, d.isAllocated t ∧ ¬ d.refuses way t)
    (hout : ∀ n ∈ originals, ∀ t ∈ first :: rest, ¬ d.LiesIn t n) :
    ∃ rows, (d.distribute way (first :: rest) originals).2 = originals ++ rows.flatten ∧
      Rows d (d.distribute way (first :: rest) originals).1 way originals (first :: rest)
        (originals :: rows) ∧
      (originals ++ rows.flatten).Nodup ∧
      (∀ n ∈ rows.flatten, ¬ d.isAllocated n ∧
        (d.distribute way (first :: rest) originals).1.isAllocated n) ∧
      ∀ n, d.isAllocated n →
        (d.distribute way (first :: rest) originals).1.data? n = d.data? n := by
  obtain ⟨hfirst, hrest⟩ := List.nodup_cons.1 hnodup
  obtain ⟨⟨ht, hrefuses⟩, htargets⟩ := List.forall_mem_cons.1 htargets
  have hlater {t : NodeId} (ht : t ∈ rest) : t ∈ first :: rest := List.mem_cons_of_mem first ht
  obtain ⟨hall, hplaced, hstand, hsame, halike⟩ := h.place_originals hdistinct horiginals hapart ht
    hrefuses fun n hn => hout n hn first List.mem_cons_self
  have hmore := extends_place d way first originals
  rw [Document.distribute]
  generalize d.place way first originals = placed at hall hplaced hstand hsame halike hmore
  obtain ⟨d₁, row⟩ := placed
  dsimp only at hall hplaced hstand hsame halike hmore ⊢
  obtain rfl : originals = row := hall.symm
  -- the other targets are where they were, and none of them has come to lie in an original
  have hnot (t : NodeId) (ht : t ∈ rest) : t ∉ originals := fun hn => hout t hn t (hlater ht) (.inl rfl)
  have hout' (n : NodeId) (hn : n ∈ originals) (t : NodeId) (ht : t ∈ rest) : ¬ d₁.LiesIn t n :=
    fun hlies => hout n hn t (hlater ht)
      (liesIn_of_unmoved hsame (fun x hx => hout x hx t (hlater ht)) hlies)
  have htargets' (t : NodeId) (ht : t ∈ rest) : d₁.isAllocated t ∧ ¬ d₁.refuses way t := by
    obtain ⟨hallocated, hfree⟩ := htargets t ht
    refine ⟨hmore.isAllocated hallocated, ?_⟩
    rwa [refuses, hsame t (hnot t ht), isLeaf_congr (hmore.data? t (lt_fresh hallocated)), ← refuses]
  obtain ⟨rows, hcopies, hsupplies⟩ := hplaced.supplies_placeCopies
    (fun t ht => (htargets' t ht).1) (fun n hn => hmore.isAllocated (horiginals n hn)) hout' way
  rw [List.filter_eq_self.2 fun t ht => by simp [(htargets' t ht).2]] at hsupplies
  have hrows := (hsupplies.of_alike h (List.forall₂_same.2 halike)).rows_of_nodup hrest
  have hdistinct' := hsupplies.nodup
  have hnew (n : NodeId) (hn : n ∈ rows.flatten) := hsupplies.new hn
  have hreceives := hsupplies.receives
  generalize d₁.placeCopies way originals rest = copied at hreceives hcopies hrows hnew
  obtain ⟨d₂, _⟩ := copied
  dsimp only at hreceives hcopies hrows hnew ⊢
  subst hcopies
  have hdata (n : NodeId) (hn : d.isAllocated n) : d₂.data? n = d.data? n :=
    (hreceives.data? n (lt_fresh (hmore.isAllocated hn))).trans (hmore.data? n (lt_fresh hn))
  have hboth : Rows d d₂ way originals (first :: rest) (originals :: rows) := by
    refine .cons ⟨?_, List.forall₂_same.2 fun n hn => h.alike_trans (halike n hn) ?_⟩ hrows
    · exact hreceives.standAt first originals (lt_fresh (hmore.isAllocated ht)) hfirst hnot hstand
    · exact hreceives.alike hplaced (hmore.isAllocated (horiginals n hn)) (hout' n hn)
  refine ⟨rows, rfl, ?_, ?_, fun n hn => ⟨fun hold => ?_, ?_⟩, fun n hn => ?_⟩
  · split
    · exact hboth.adoptTopLevel h hreceives.wellFormed _
    · exact hboth
  · refine List.nodup_append'.2 ⟨hdistinct, hdistinct', fun n hn hmem => ?_⟩
    exact Nat.not_lt_of_le (hnew n hmem).1 (lt_fresh (hmore.isAllocated (horiginals n hn)))
  · exact Nat.not_lt_of_le (hmore.fresh_le.trans (hnew n hn).1) (lt_fresh hold)
  · split
    · exact (hnew n hn).2
    · exact (hnew n hn).2
  · split
    · exact hdata n hn
    · exact hdata n hn

end Originals

end DomQuery.Document
