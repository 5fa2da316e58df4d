import DomQuery.Proofs.Document.Counting
import DomQuery.Proofs.Document.Soundness

/-!
What becomes of nodes that are read from markup and handed out. Each target takes all of them or none.
The first target gets the nodes themselves, and with the fragment goes what it refuses; the copies that a
later target refuses are left over.
-/
namespace DomQuery.Document
variable {d d' read : Document} {S M : NodeId → Prop} {n c p target first : NodeId} {spot : Spot}
  {way : Place} {ns originals targets : List NodeId}

/-! What is read. -/

/-- The nodes that do not lie in a container. -/
def astray (d : Document) (c : NodeId) : List NodeId := d.nodes.filter (· ∉ d.subtree c)

theorem Lifted.treeSize (h : d.Lifted c ns) (hns : ns ≠ []) : d.treeSize c = 1 + d.forestSize ns := by
  have hd := h.wellFormed
  have hchildren : (d.children c).Perm ns :=
    (List.perm_ext_iff_of_nodup (hd.nodup_children c) h.nodup).2 fun n => by
      rw [← hd.parent?_eq_some_iff, h.parent?_eq_some_iff]
  rw [hd.treeSize_eq (Nat.zero_lt_of_lt (lt_fresh (h.isAllocated_iff.2 hns))), forestSize_perm hchildren]

theorem Lifted.not_isWithin (h : d.Lifted c ns) : ∀ n ∈ ns, ∀ a ∈ ns, ¬ d.isWithin a n := by
  intro n hn a ha hwithin
  have hparent (m : NodeId) (hm : m ∈ ns) := (h.parent?_eq_some_iff m).2 hm
  have hcn := (isWithin_iff_of_parent? (hparent a ha)).1 hwithin
  exact h.wellFormed.not_isWithin_self n ((isWithin_iff_of_parent? (hparent n hn)).2 hcn)

theorem Lifted.nodeCount (h : d.Lifted c ns) :
    d.nodeCount = (d.astray c).length + if ns = [] then 0 else 1 + d.forestSize ns := by
  have hd := h.wellFormed
  have hparts := List.length_eq_length_filter_add (l := d.nodes) (· ∈ d.subtree c)
  simp only [← decide_not] at hparts
  rw [nodeCount_eq, hparts, Nat.add_comm, ← astray]
  congr 1
  have hlies (n : NodeId) (hn : d.isAllocated n) : n ∈ d.subtree c ↔ d.LiesIn n c :=
    hd.mem_subtree_iff (Nat.zero_lt_of_lt (lt_fresh hn))
  split
  · rename_i hns
    rw [List.length_eq_zero_iff, List.filter_eq_nil_iff]
    intro n hn hmem
    have hn := mem_nodes.1 hn
    have hc : ¬ d.isAllocated c := fun hc => h.isAllocated_iff.1 hc hns
    rcases (hlies n hn).1 (of_decide_eq_true hmem) with rfl | hwithin
    · exact hc hn
    · obtain ⟨x, hx, -⟩ := isWithin_iff_exists_liesIn.1 hwithin
      exact hc (hd.isAllocated_parent hx)
  · rename_i hns
    have hc := h.isAllocated_iff.2 hns
    have hpos := Nat.zero_lt_of_lt (lt_fresh hc)
    have hinside : (d.nodes.filter (· ∈ d.subtree c)).Perm (d.subtree c) := by
      refine (List.perm_ext_iff_of_nodup (d.nodup_nodes.filter _) (hd.nodup_subtree c)).2 fun n => ?_
      rw [List.mem_filter, mem_nodes, decide_eq_true_iff]
      exact and_iff_right_of_imp fun hmem => ((hd.mem_subtree_iff hpos).1 hmem).isAllocated hc
    rw [hinside.length_eq, ← Document.treeSize, h.treeSize hns]

/-! One target. -/

/-- Whether a target takes nothing: there is no place next to it, or none inside. -/
def refuses (d : Document) (way : Place) (target : NodeId) : Bool :=
  if way.isBeside then (d.parent? target).isNone else d.isLeaf target

theorem nodeCount_placeFrom (d : Document) (way : Place) (target : NodeId) (spot : Spot)
    (ns : List NodeId) : (d.placeFrom way target spot ns).1.nodeCount = d.nodeCount := by
  induction ns generalizing d spot with
  | nil => rfl
  | cons n ns ih =>
    rw [placeFrom]
    split
    · exact ih d spot
    · exact (ih _ _).trans (nodeCount_put d spot n)

theorem placeFrom_of_refused (h : ∀ n ∈ ns, (d.refusal? spot n).isSome) :
    d.placeFrom way target spot ns = (d, []) := by
  induction ns with
  | nil => rfl
  | cons n ns ih =>
    obtain ⟨hn, hrest⟩ := List.forall_mem_cons.1 h
    rw [placeFrom, if_pos hn, ih hrest]

theorem WellFormed.placeFrom_eq (h : d.WellFormed) (hns : ∀ n ∈ ns, d.isAllocated n ∧ ¬ d.LiesIn p n)
    (hp : spot.parent? d = some p) (hallocated : d.isAllocated p) (hleaf : ¬ d.isLeaf p)
    (hinside : way = .prepend → p = target) : (d.placeFrom way target spot ns).2 = ns := by
  induction ns generalizing d spot with
  | nil => rfl
  | cons n ns ih =>
    obtain ⟨⟨hn, hpn⟩, hrest⟩ := List.forall_mem_cons.1 hns
    have haccepted : d.refusal? spot n = none :=
      refusal?_eq_none_iff.2 ⟨p, hp, .inr (accepts_iff.2 ⟨hleaf, hpn⟩)⟩
    have hmore := extends_put d spot n
    have hput := h.put hn (has_of_parent? hp hallocated) haccepted
    have hsame : ∀ x ≠ n, (d.put spot n).parent? x = d.parent? x := by
      intro x hx
      rw [parent?_put hn hp, if_neg hx]
    have hnext := ih hput (fun m hm => (hrest m hm).imp hmore.isAllocated fun hpm hlies =>
        hpm ((liesIn_of_avoids hsame hpn).1 hlies))
      (Place.parent?_nextSpot hput hn hp hinside) (hmore.isAllocated hallocated)
      (by rwa [hmore.isLeaf_iff hallocated])
    rw [Document.placeFrom, haccepted]
    exact congrArg (n :: ·) hnext

theorem WellFormed.place_of_refuses (h : d.WellFormed) (hrefuses : d.refuses way target) :
    d.place way target ns = (d, []) := by
  have hinside (hleaf : d.isLeaf target) (n : NodeId) : (d.refusal? (.lastIn target) n).isSome := by
    have haccepts : d.accepts target n = false := by simp [accepts, hleaf]
    simp [refusal?, Spot.parent?, Spot.isNextTo, haccepts]
  have hbeside {spot : Spot} (hnone : (d.parent? target).isNone)
      (hspot : spot.parent? d = d.parent? target) :
      d.placeFrom way target spot ns = (d, []) :=
    placeFrom_of_parent?_eq_none (hspot.trans (Option.isNone_iff_eq_none.1 hnone)) ns
  cases way with
  | append => exact placeFrom_of_refused fun n _ => hinside hrefuses n
  | prepend =>
    have hfirst : d.firstChild? target = none := by
      rw [firstChild?, h.children_of_isLeaf hrefuses]
      rfl
    rw [Document.place, Place.spot, hfirst]
    exact placeFrom_of_refused fun n _ => hinside hrefuses n
  | before => exact hbeside hrefuses rfl
  | after => exact hbeside hrefuses rfl

theorem WellFormed.place_of_not_refuses (h : d.WellFormed) (hrefuses : ¬ d.refuses way target)
    (htarget : d.isAllocated target) (hns : ∀ n ∈ ns, d.isAllocated n ∧ ¬ d.LiesIn target n) :
    (d.place way target ns).2 = ns := by
  obtain ⟨p, hp⟩ : ∃ p, (way.spot d target).parent? d = some p := by
    have hbeside (hnone : ¬ (d.parent? target).isNone) : ∃ p, d.parent? target = some p :=
      Option.ne_none_iff_exists'.1 fun heq => hnone (Option.isNone_iff_eq_none.2 heq)
    cases way with
    | append => exact ⟨target, rfl⟩
    | prepend =>
      refine ⟨target, Place.parent?_frontOf fun c hc => h.parent?_eq_some_iff.2 ?_⟩
      exact List.mem_of_mem_head? (Option.mem_def.2 hc)
    | before => exact hbeside hrefuses
    | after => exact hbeside hrefuses
  rcases Place.parent?_spot h hp with ⟨rfl, hway⟩ | ⟨hparent, hway⟩
  · rw [refuses, hway] at hrefuses
    exact h.placeFrom_eq hns hp htarget hrefuses fun _ => rfl
  · have hnotIn (n : NodeId) (hout : ¬ d.LiesIn target n) : ¬ d.LiesIn p n := fun hlies =>
      hout (.trans (.inr (isWithin_of_parent? hparent)) hlies)
    refine h.placeFrom_eq (fun n hn => (hns n hn).imp_right (hnotIn n)) hp
      (h.isAllocated_parent hparent) (h.not_isLeaf_parent hparent) ?_
    rintro rfl
    cases hway

theorem nodeCount_place (d : Document) (way : Place) (target : NodeId) (ns : List NodeId) :
    (d.place way target ns).1.nodeCount = d.nodeCount := nodeCount_placeFrom ..

/-! New nodes at an old target. -/

theorem Grows.refuses_eq (h : d.Grows d') (way : Place) (ht : target < d.fresh) :
    d'.refuses way target = d.refuses way target := by
  rw [refuses, refuses, h.parent?_of_lt ht, isLeaf_congr (h.toExtends.data? target ht)]

section New
variable (hadds : d.Adds read ns) (ht : d.isAllocated target)
include hadds ht

theorem Adds.place_eq (way : Place) :
    (read.place way target ns).2 = if d.refuses way target then [] else ns := by
  have ht' := hadds.grows.toExtends.isAllocated ht
  rw [← hadds.grows.refuses_eq way (lt_fresh ht)]
  split
  · rename_i hrefuses
    rw [hadds.wellFormed.place_of_refuses hrefuses]
  · rename_i hrefuses
    refine hadds.wellFormed.place_of_not_refuses hrefuses ht' fun n hn => ?_
    obtain ⟨hle, hallocated⟩ := hadds.of_mem n hn
    exact ⟨hallocated, fun hlies => Nat.not_lt_of_le (hadds.grows.le_of_liesIn hlies hle) (lt_fresh ht)⟩

theorem Adds.moves_place (way : Place) :
    read.Moves (fun n => d.fresh ≤ n ∧ n < read.fresh) (fun n => n ∈ ns ∨ read.fresh ≤ n)
        (read.place way target ns).1 ∧
      ∀ n ∈ (read.place way target ns).2, n ∈ ns ∧
        ∃ p, (read.place way target ns).1.parent? n = some p ∧ ¬ (d.fresh ≤ p ∧ p < read.fresh) :=
  hadds.wellFormed.place way hadds.split.sealed (fun n hn => ⟨(hadds.of_mem n hn).2, .inl hn⟩)
    ⟨hadds.grows.toExtends.isAllocated ht, fun hin => Nat.not_lt_of_le hin.1 (lt_fresh ht)⟩

omit ht in
theorem Adds.moves_placeCopies (hM : ∀ n, read.fresh ≤ n → M n)
    (hmoves : read.Moves (fun n => d.fresh ≤ n ∧ n < read.fresh) M d') (way : Place)
    (originals : List NodeId) (htargets : ∀ t ∈ targets, d.isAllocated t) :
    d'.Moves (fun n => d.fresh ≤ n ∧ n < read.fresh) M (d'.placeCopies way originals targets).1 := by
  refine (hmoves.wellFormed.placeCopies (fun n hn => Nat.lt_of_lt_of_le hn.2 hmoves.fresh_le)
    (fun n hn => hM n (Nat.le_trans hmoves.fresh_le hn)) way originals
    (hmoves.sealed hadds.split.sealed) fun t ht => ?_).1
  have ht := htargets t ht
  exact ⟨hmoves.isAllocated (hadds.grows.toExtends.isAllocated ht), fun hin =>
    Nat.not_lt_of_le hin.1 (lt_fresh ht)⟩

omit ht in
theorem Adds.forestSize_moves (hapart : ∀ n ∈ ns, ∀ a ∈ ns, ¬ read.isWithin a n)
    (hmoves : read.Moves (fun n => d.fresh ≤ n ∧ n < read.fresh) (fun n => n ∈ ns ∨ read.fresh ≤ n) d') :
    d'.forestSize ns = read.forestSize ns := by
  refine hadds.wellFormed.forestSize_moves hmoves (fun n hn => hn.2) hadds.split.sealed
    (fun n hn => (hadds.of_mem n hn).imp_right lt_fresh) fun n hn a ha => ?_
  rintro (hmem | hlater)
  · exact hapart n hn a hmem ha
  · obtain ⟨p, hp⟩ := exists_parent?_of_isWithin ha
    exact Nat.not_lt_of_le hlater (lt_fresh (isAllocated_of_parent? hp))

theorem Adds.forestSize_place (way : Place) (hapart : ∀ n ∈ ns, ∀ a ∈ ns, ¬ read.isWithin a n)
    (hmoves : read.Moves (fun n => d.fresh ≤ n ∧ n < read.fresh) (fun n => n ∈ ns ∨ read.fresh ≤ n) d') :
    d'.forestSize (read.place way target ns).2 =
      if d.refuses way target then 0 else read.forestSize ns := by
  rw [hadds.place_eq ht way]
  split
  · rfl
  · exact hadds.forestSize_moves hapart hmoves

end New

/-! Further targets. -/

theorem Moves.refuses_eq (hmoves : d.Moves S M d') (way : Place)
    (ht : target < d.fresh) (hM : ¬ M target) : d'.refuses way target = d.refuses way target := by
  have hparent := (hmoves.parent? target).resolve_right fun hmoved => hM hmoved.1
  rw [refuses, refuses, hparent, isLeaf_congr (hmoves.data? target ht)]

theorem Moves.filter_refuses (hmoves : d.Moves S M d') (way : Place)
    (htargets : ∀ t ∈ targets, t < d.fresh ∧ ¬ M t) :
    targets.filter (!d'.refuses way ·) = targets.filter (!d.refuses way ·) :=
  List.filter_congr fun t ht => by rw [hmoves.refuses_eq way (htargets t ht).1 (htargets t ht).2]

section Copying
variable (h : d.WellFormed) (way : Place) (hS : ∀ n, S n → n < d.fresh) (hsealed : d.Sealed S)
  (horiginals : ∀ n ∈ originals, d.isAllocated n ∧ S n)
include h hS hsealed horiginals

theorem WellFormed.place_copyAll (ht : d.isAllocated target ∧ ¬ S target)
    (copied : Document × List NodeId) (hcopied : copied = d.copyAll originals) :
    d.Moves S (d.fresh ≤ ·) (copied.1.place way target copied.2).1 ∧
      (copied.1.place way target copied.2).1.nodeCount = d.nodeCount + d.forestSize originals ∧
      (copied.1.place way target copied.2).1.forestSize originals = d.forestSize originals := by
  have hadds := h.adds_copyAll originals
  obtain ⟨hcount, -, -⟩ := h.copyAll_counted fun n hn => (horiginals n hn).1
  rw [← hcopied] at hadds hcount
  have hgrown : d.Moves S (d.fresh ≤ ·) copied.1 := .of_adds hadds fun n hn =>
    ⟨hn, fun hin => Nat.not_lt_of_le hn (hS n hin)⟩
  have hmoves := hgrown.trans (hgrown.wellFormed.place way (hgrown.sealed hsealed)
    (fun c hc => (hadds.of_mem c hc).symm) (ht.imp_left hadds.grows.toExtends.isAllocated)).1
  refine ⟨hmoves, (nodeCount_place ..).trans hcount, ?_⟩
  refine h.forestSize_moves hmoves hS hsealed (fun n hn => (horiginals n hn).2) fun n hn a ha hnew => ?_
  exact Nat.not_lt_of_le hnew (hS a (hsealed.of_liesIn (.inr ha) (horiginals n hn).2))

/-- Copies are made for every target, and those of which it takes none stay. The originals are in a set
that nothing moves in. -/
theorem WellFormed.placeCopies_counted (htargets : ∀ t ∈ targets, d.isAllocated t ∧ ¬ S t) :
    (d.placeCopies way originals targets).1.nodeCount =
        d.nodeCount + targets.length * d.forestSize originals ∧
      (d.placeCopies way originals targets).1.forestSize (d.placeCopies way originals targets).2 =
        (targets.filter (!d.refuses way ·)).length * d.forestSize originals := by
  induction targets generalizing d with
  | nil => simp [Document.placeCopies, forestSize]
  | cons t targets ih =>
    obtain ⟨ht, hrest⟩ := List.forall_mem_cons.1 htargets
    have hadds := h.adds_copyAll originals
    obtain ⟨-, hsize, hbare⟩ := h.copyAll_counted fun n hn => (horiginals n hn).1
    have hstep := h.place_copyAll way hS hsealed horiginals ht
    rw [Document.placeCopies]
    generalize d.copyAll originals = copied at hadds hsize hbare hstep
    obtain ⟨d₁, copies⟩ := copied
    obtain ⟨hmoves, hcount, hsame⟩ := hstep _ rfl
    dsimp only at hadds hsize hbare hmoves hcount hsame ⊢
    -- of the copies only the roots move
    have hplaced := (hadds.moves_place ht.1 way).1
    have hlater := hadds.moves_placeCopies (fun n => .inr) hplaced way originals fun u hu => (hrest u hu).1
    have htaken := hadds.forestSize_place ht.1 way (fun c _ a ha hwithin => by
      obtain ⟨p, hp⟩ := exists_parent?_of_isWithin hwithin
      cases (hbare a ha).symm.trans hp) (hplaced.trans hlater)
    obtain ⟨hcount', hsize'⟩ := ih hmoves.wellFormed
      (fun n hn => Nat.lt_of_lt_of_le (hS n hn) hmoves.fresh_le) (hmoves.sealed hsealed)
      (fun n hn => (horiginals n hn).imp_left hmoves.isAllocated)
      fun u hu => (hrest u hu).imp_left hmoves.isAllocated
    have hstay (u : NodeId) (hu : u ∈ targets) : u < d.fresh ∧ ¬ d.fresh ≤ u := by
      have hlt := lt_fresh (hrest u hu).1
      exact ⟨hlt, Nat.not_le_of_lt hlt⟩
    rw [hsame] at hcount' hsize'
    rw [hmoves.filter_refuses way hstay] at hsize'
    refine ⟨?_, ?_⟩
    · rw [hcount', hcount, List.length_cons, Nat.add_one_mul]
      omega
    · rw [forestSize_append, hsize', htaken, hsize, List.filter_cons]
      cases d.refuses way t with
      | true => exact Nat.zero_add _
      | false => rw [Bool.not_false, if_pos rfl, if_neg Bool.false_ne_true, List.length_cons,
          Nat.add_one_mul, Nat.add_comm]

end Copying

/-! All targets. -/

theorem Lifted.children_eq_nil (h : d.Lifted c ns) (hc : S c) (hmoves : d.Moves S M d')
    (hout : ∀ n ∈ ns, ∃ p, d'.parent? n = some p ∧ ¬ S p) : d'.children c = [] := by
  refine List.eq_nil_iff_forall_not_mem.2 fun n hn => ?_
  have hn := hmoves.wellFormed.parent?_eq_some_iff.2 hn
  obtain ⟨p, hp, houtside⟩ : ∃ p, d'.parent? n = some p ∧ ¬ S p := by
    rcases hmoves.parent? n with hsame | ⟨-, hmoved⟩
    · exact hout n ((h.parent?_eq_some_iff n).1 (hsame.symm.trans hn))
    · exact hmoved
  exact houtside (Option.some.inj (hp.symm.trans hn) ▸ hc)

section All
variable {rest : List NodeId} (hadds : d.Adds read ns) (hlifted : read.Lifted d.fresh ns) (way : Place)
  (hfirst : d.isAllocated first) (hrest : ∀ t ∈ rest, d.isAllocated t)
include hadds hlifted hfirst hrest

theorem Adds.distribute_counted :
    (read.distribute way (first :: rest) ns).1.nodeCount =
        read.nodeCount + rest.length * read.forestSize ns ∧
      (read.distribute way (first :: rest) ns).1.forestSize (read.distribute way (first :: rest) ns).2 =
        (if d.refuses way first then 0 else read.forestSize ns) +
          (rest.filter (!d.refuses way ·)).length * read.forestSize ns := by
  have hplaced := (hadds.moves_place hfirst way).1
  have hlater := hadds.moves_placeCopies (fun n => .inr) hplaced way ns hrest
  have htaken := hadds.forestSize_place hfirst way hlifted.not_isWithin (hplaced.trans hlater)
  have hwhole := hadds.forestSize_moves hlifted.not_isWithin hplaced
  have hrest' (t : NodeId) (ht : t ∈ rest) : (read.place way first ns).1.isAllocated t ∧
      ¬ (d.fresh ≤ t ∧ t < read.fresh) := by
    have ht := hrest t ht
    exact ⟨hplaced.isAllocated (hadds.grows.toExtends.isAllocated ht), fun hin =>
      Nat.not_lt_of_le hin.1 (lt_fresh ht)⟩
  obtain ⟨hcount, hsize⟩ := hplaced.wellFormed.placeCopies_counted way
    (fun n hn => Nat.lt_of_lt_of_le hn.2 hplaced.fresh_le) (hplaced.sealed hadds.split.sealed)
    (fun n hn => by
      obtain ⟨hle, hallocated⟩ := hadds.of_mem n hn
      exact ⟨hplaced.isAllocated hallocated, hle, lt_fresh hallocated⟩) hrest'
  have hstay (t : NodeId) (ht : t ∈ rest) : t < read.fresh ∧ ¬ (t ∈ ns ∨ read.fresh ≤ t) := by
    have hlt := lt_fresh (hrest t ht)
    refine ⟨Nat.lt_of_lt_of_le hlt hadds.grows.fresh_le, ?_⟩
    rintro (hmem | hle)
    · exact Nat.not_lt_of_le (hadds.of_mem t hmem).1 hlt
    · exact Nat.not_lt_of_le (hadds.grows.fresh_le.trans hle) hlt
  have hread : rest.filter (!read.refuses way ·) = rest.filter (!d.refuses way ·) :=
    List.filter_congr fun t ht => by rw [hadds.grows.refuses_eq way (lt_fresh (hrest t ht))]
  rw [hwhole, nodeCount_place] at hcount
  rw [hwhole, hplaced.filter_refuses way hstay, hread] at hsize
  suffices hall : ((read.place way first ns).1.placeCopies way ns rest).1.nodeCount =
        read.nodeCount + rest.length * read.forestSize ns ∧
      ((read.place way first ns).1.placeCopies way ns rest).1.forestSize
          ((read.place way first ns).2 ++ ((read.place way first ns).1.placeCopies way ns rest).2) =
        (if d.refuses way first then 0 else read.forestSize ns) +
          (rest.filter (!d.refuses way ·)).length * read.forestSize ns by
    simp only [Document.distribute]
    split
    · refine hall.imp id fun hsize => Eq.trans (forestSize_congr fun n _ => ?_) hsize
      exact treeSize_adoptTopLevel ..
    · exact hall
  refine ⟨hcount, ?_⟩
  rw [forestSize_append, htaken, hsize]

theorem Adds.treeSize_scratch (hne : ns ≠ []) :
    (read.distribute way (first :: rest) ns).1.treeSize d.fresh =
      1 + if d.refuses way first then read.forestSize ns else 0 := by
  have hread := hadds.wellFormed
  have hcontainer := hlifted.isAllocated_iff.2 hne
  have hin : d.fresh ≤ d.fresh ∧ d.fresh < read.fresh := ⟨Nat.le_refl _, lt_fresh hcontainer⟩
  suffices hscratch : ((read.place way first ns).1.placeCopies way ns rest).1.treeSize d.fresh =
      1 + if d.refuses way first then read.forestSize ns else 0 by
    simp only [Document.distribute]
    split
    · rwa [treeSize_adoptTopLevel]
    · exact hscratch
  have heq := hadds.grows.refuses_eq way (lt_fresh hfirst)
  split
  · rename_i hrefuses
    rw [← heq] at hrefuses
    rw [hread.place_of_refuses hrefuses]
    have hcopies := hadds.moves_placeCopies (fun n => id) (.refl hread) way ns hrest
    rw [hread.treeSize_moves hcopies hadds.split.sealed hin (Nat.zero_lt_of_lt hin.2) fun a ha hlater => ?_,
      hlifted.treeSize hne]
    obtain ⟨p, hp⟩ := exists_parent?_of_isWithin ha
    exact Nat.not_lt_of_le hlater (lt_fresh (isAllocated_of_parent? hp))
  · rename_i hrefuses
    have hall := hadds.place_eq hfirst way
    rw [if_neg hrefuses] at hall
    obtain ⟨hplaced, hout⟩ := hadds.moves_place hfirst way
    have hlater := hadds.moves_placeCopies (fun n => .inr) hplaced way ns hrest
    have hboth := hplaced.trans hlater
    rw [hboth.wellFormed.treeSize_eq (Nat.zero_lt_of_lt (Nat.lt_of_lt_of_le hin.2 hboth.fresh_le))]
    rw [hlifted.children_eq_nil hin hboth fun n hn => hlater.outside (hout n (hall.symm ▸ hn)).2,
      forestSize_nil]

end All

section Balance
variable (hadds : d.Adds read ns) (hlifted : read.Lifted d.fresh ns) (way : Place)
  (htargets : ∀ t ∈ targets, d.isAllocated t) {given : Document × List NodeId}
  (hgiven : given = read.distribute way targets ns)
include hadds hlifted htargets hgiven

/-- What is handed out and what is left in the fragment make up the forest and the copies that are taken. -/
theorem Adds.distribute_balance :
    given.1.nodeCount = read.nodeCount + targets.tail.length * read.forestSize ns ∧
      (ns = [] → given.1.forestSize given.2 = 0) ∧
      (ns ≠ [] → given.1.forestSize given.2 + given.1.treeSize d.fresh = 1 + read.forestSize ns +
        (targets.tail.filter (!d.refuses way ·)).length * read.forestSize ns) := by
  cases targets with
  | nil =>
    subst hgiven
    exact ⟨by simp [Document.distribute], fun _ => rfl, fun hne => by
      simp [Document.distribute, hlifted.treeSize hne, forestSize_nil]⟩
  | cons first rest =>
    obtain ⟨hfirst, hrest⟩ := List.forall_mem_cons.1 htargets
    obtain ⟨hcount, hsize⟩ := hadds.distribute_counted hlifted way hfirst hrest
    rw [← hgiven] at hcount hsize
    refine ⟨hcount, fun hnil => ?_, fun hne => ?_⟩
    · subst hnil
      simpa [forestSize_nil] using hsize
    · have hscratch := hadds.treeSize_scratch hlifted way hfirst hrest hne
      rw [← hgiven] at hscratch
      rw [hsize, hscratch, List.tail_cons]
      split <;> omega

/-- The fragment is freed with what the first target refuses. The copies that a later target refuses are
left over. -/
theorem Adds.discardScratch_counted :
    (given.1.discardScratch (read.scratch? ns)).nodeCount +
        (if ns = [] then 0 else 1 + read.forestSize ns) =
      read.nodeCount + (given.1.discardScratch (read.scratch? ns)).forestSize given.2 +
        (targets.tail.filter (d.refuses way ·)).length * read.forestSize ns := by
  obtain ⟨hcount, hnone, hsome⟩ := hadds.distribute_balance hlifted way htargets hgiven
  by_cases hne : ns = []
  · subst hne
    have hscratch : read.scratch? [] = none := rfl
    rw [hscratch, discardScratch, if_pos rfl, hcount, hnone rfl, forestSize_nil]
    omega
  · obtain ⟨hmoves, hplaced⟩ := hadds.moves_distribute way htargets
    rw [← hgiven] at hmoves hplaced
    have hparent (n : NodeId) (hn : n ∈ ns) := (hlifted.parent?_eq_some_iff n).2 hn
    have hscratch : read.scratch? ns = some d.fresh := by
      rw [scratch?, List.head?_eq_some_head hne]
      exact hparent _ (List.head_mem hne)
    have hread := hlifted.isAllocated_iff.2 hne
    have hcontainer := hmoves.isAllocated hread
    have hfreed := hmoves.wellFormed.nodeCount_discard hcontainer
    have hkept : (given.1.discard d.fresh).forestSize given.2 = given.1.forestSize given.2 :=
      forestSize_congr fun n hn => by
        obtain ⟨hn, hfree⟩ := hplaced n hn
        exact hmoves.wellFormed.treeSize_discard hcontainer hn
          (hadds.apart_scratch hread hmoves (fun x hx => hadds.not_given_of_above hparent hne hx) hfree)
    have hparts := List.length_eq_length_filter_add (l := targets.tail) (d.refuses way ·)
    rw [hparts, Nat.add_mul] at hcount
    have hsome := hsome hne
    rw [hscratch, discardScratch, if_neg hne, hkept]
    omega

end Balance

end DomQuery.Document
