import DomQuery.Proofs.Document.Contiguity
import DomQuery.Proofs.Document.Refusals

/-!
What a change of the tree does to its links, all of them. A node that is moved leaves the children of its old
parent and goes between two parts of what is left of the children of the new one, which may be the same; a
node that is taken out stands at the top of a tree of its own. No other node is relinked, and what lies below
a node goes with it.
-/
namespace DomQuery
variable {d d' : Document} {n m p q new old : NodeId} {spot : Spot} {ns left right cs : List NodeId}

theorem Spot.exists_cuts (hspot : ∀ s, spot = .before s ∨ spot = .after s → s ∈ cs) :
    ∃ left right, cs = left ++ right ∧ spot.Cuts left right := by
  cases spot with
  | firstIn p => exact ⟨[], cs, rfl, rfl⟩
  | lastIn p => exact ⟨cs, [], (List.append_nil cs).symm, rfl⟩
  | before s =>
    obtain ⟨left, right, rfl⟩ := List.append_of_mem (hspot s (.inl rfl))
    exact ⟨left, s :: right, rfl, rfl⟩
  | after s =>
    obtain ⟨left, right, rfl⟩ := List.append_of_mem (hspot s (.inr rfl))
    exact ⟨left ++ [s], right, by rw [List.append_assoc]; rfl, List.getLast?_concat⟩

namespace Document

/-- The nodes and the list of roots are the same; their links need not be. -/
structure Relinked (d d' : Document) : Prop where
  data? : ∀ m, d'.data? m = d.data? m
  fresh : d'.fresh = d.fresh
  roots : d'.roots = d.roots

/-- The nodes `ns` have left their parents. -/
structure Releases (d d' : Document) (ns : List NodeId) : Prop extends d.Relinked d' where
  parent? : ∀ m, d'.parent? m = if m ∈ ns then none else d.parent? m
  children : ∀ q, d'.children q = (d.children q).filter (· ∉ ns)

/-- The node `n` has left its place and stands between two parts of the remaining children of `p`. -/
structure Inserts (d d' : Document) (n p : NodeId) (left right : List NodeId) : Prop extends
    d.Relinked d' where
  remaining : (d.children p).erase n = left ++ right
  parent? : ∀ m, d'.parent? m = if m = n then some p else d.parent? m
  children : d'.children p = left ++ n :: right
  children_of_ne : ∀ q ≠ p, d'.children q = (d.children q).erase n

/-- The node `new` has left its place and stands where `old` was, which has no parent any more. -/
structure Replaces (d d' : Document) (p new old : NodeId) (left right : List NodeId) : Prop extends
    d.Relinked d' where
  remaining : (d.children p).erase new = left ++ old :: right
  parent? : ∀ m, d'.parent? m = if m = old then none else if m = new then some p else d.parent? m
  children : d'.children p = left ++ new :: right
  children_of_ne : ∀ q ≠ p, d'.children q = (d.children q).erase new

theorem Relinked.trans {d'' : Document} (h : d.Relinked d') (h' : d'.Relinked d'') : d.Relinked d'' where
  data? m := (h'.data? m).trans (h.data? m)
  fresh := h'.fresh.trans h.fresh
  roots := h'.roots.trans h.roots

/-! Subtrees. -/

theorem flatMap_filter {f g : NodeId → List NodeId} {kept : NodeId → Bool}
    (hkept : ∀ c ∈ cs, kept c → f c = g c) (hleft : ∀ c ∈ cs, ¬ kept c → g c = []) :
    (cs.filter kept).flatMap f = cs.flatMap g := by
  induction cs with
  | nil => rfl
  | cons c cs ih =>
    obtain ⟨hc, hkept⟩ := List.forall_mem_cons.1 hkept
    obtain ⟨hc', hleft⟩ := List.forall_mem_cons.1 hleft
    rw [List.flatMap_cons, ← ih hkept hleft]
    by_cases hmem : kept c
    · rw [List.filter_cons_of_pos hmem, List.flatMap_cons, hc hmem]
    · rw [List.filter_cons_of_neg hmem, hc' hmem, List.nil_append]

theorem WellFormed.subtree_without (h : d.WellFormed) (h' : d'.WellFormed) (hfresh : d'.fresh = d.fresh)
    (hn : ∀ r ∈ ns, ¬ d.LiesIn n r)
    (hchildren : ∀ m, d.LiesIn m n → (∀ r ∈ ns, ¬ d.LiesIn m r) →
      d'.children m = (d.children m).filter (· ∉ ns)) :
    d'.subtree n = (d.subtree n).filter fun m => ∀ r ∈ ns, ¬ d.LiesIn m r := by
  by_cases hpos : 0 < d.slots.size
  · have hpos' : 0 < d'.slots.size := by rwa [show d'.slots.size = d.slots.size from hfresh]
    induction n using h.descend with
    | step n ih =>
      rw [h.subtree_eq hpos, h'.subtree_eq hpos', List.filter_cons_of_pos (by simpa using hn),
        hchildren n (.inl rfl) hn, List.filter_flatMap]
      refine congrArg (n :: ·) (flatMap_filter (fun c hc hkept => ?_) fun c hc hleft => ?_)
      · have hwithin := h.isWithin_of_mem_children hc
        refine ih c hc (fun r hr hcr => ?_) fun m hm => hchildren m (hm.trans (.inr hwithin))
        obtain rfl | hcr := hcr
        · exact of_decide_eq_true hkept hr
        · exact hn r hr ((isWithin_iff_of_parent? (h.parent?_eq_some_iff.2 hc)).1 hcr)
      · refine List.filter_eq_nil_iff.2 fun m hm hfree => of_decide_eq_true hfree c ?_ ?_
        · simpa using hleft
        · exact (h.mem_subtree_iff hpos).1 hm
  · have hsize := Nat.eq_zero_of_not_pos hpos
    rw [subtree, subtree, show d'.slots.size = 0 from hfresh.trans hsize, hsize]
    rfl

theorem WellFormed.subtree_congr (h : d.WellFormed) (h' : d'.WellFormed) (hfresh : d'.fresh = d.fresh)
    (hchildren : ∀ m, d.LiesIn m n → d'.children m = d.children m) : d'.subtree n = d.subtree n := by
  have hall : d'.subtree n = (d.subtree n).filter fun m => ∀ r ∈ [], ¬ d.LiesIn m r :=
    h.subtree_without h' hfresh (by simp) fun m hm _ => by simp [hchildren m hm]
  simpa using hall

/-! Taking out. -/

section WellFormed
variable (h : d.WellFormed)
include h

theorem WellFormed.not_liesIn_of_parent? (hp : d.parent? n = some p) : ¬ d.LiesIn p n :=
  fun hlies => h.not_isWithin_self n ((isWithin_iff_of_parent? hp).2 hlies)

theorem WellFormed.releases_foldl_detach (ns : List NodeId) : d.Releases (ns.foldl Document.detach d) ns where
  data? := data?_foldl_detach ns d
  fresh := fresh_foldl_detach ns d
  roots := (extends_foldl_detach ns d).roots
  parent? := parent?_foldl_detach ns d
  children := h.children_foldl_detach ns

theorem WellFormed.releases_detach (n : NodeId) : d.Releases (d.detach n) [n] :=
  h.releases_foldl_detach [n]

theorem WellFormed.releases_clearChildren (n : NodeId) : d.Releases (d.clearChildren n) (d.children n) :=
  h.releases_foldl_detach (d.children n)

theorem Releases.subtree (hreleases : d.Releases d' ns) (h' : d'.WellFormed)
    (hapart : ∀ r ∈ ns, ∀ m, d.parent? r = some m → ¬ d.LiesIn m n) : d'.subtree n = d.subtree n := by
  refine h.subtree_congr h' hreleases.fresh fun m hm => ?_
  rw [hreleases.children, List.filter_eq_self]
  exact fun r hr => decide_eq_true fun hmem => hapart r hmem m (h.parent?_eq_some_iff.2 hr) hm

theorem WellFormed.subtree_detach (n : NodeId) : (d.detach n).subtree n = d.subtree n := by
  refine (h.releases_detach n).subtree h (h.detach n) fun r hr m hm hlies => ?_
  obtain rfl := List.mem_singleton.1 hr
  exact h.not_liesIn_of_parent? hm hlies

theorem WellFormed.subtree_clearChildren (hm : m ∈ d.children n) :
    (d.clearChildren n).subtree m = d.subtree m := by
  refine (h.releases_clearChildren n).subtree h (h.clearChildren n) fun r hr p hp hlies => ?_
  obtain rfl := Option.some.inj ((h.parent?_eq_some_iff.2 hr).symm.trans hp)
  exact h.not_liesIn_of_parent? (h.parent?_eq_some_iff.2 hm) hlies

/-! Putting in. -/

theorem WellFormed.inserts_put (hn : d.isAllocated n) (hallocated : d.isAllocated p)
    (hp : spot.parent? d = some p) (hnext : ¬ spot.isNextTo n) :
    ∃ left right, spot.Cuts left right ∧ d.Inserts (d.put spot n) n p left right := by
  obtain ⟨left, right, hremaining, hcuts⟩ := Spot.exists_cuts (h.mem_erase_of_spot hnext hp)
  have hchildren := h.children_put hnext hp hallocated
  have hnodup := (h.nodup_children p).erase n
  rw [hremaining] at hnodup
  refine ⟨left, right, hcuts, ?_⟩
  exact {
    data? := data?_put d spot n
    fresh := fresh_put d spot n
    roots := roots_put d spot n
    remaining := hremaining
    parent? := parent?_put hn hp
    children := by
      rw [hchildren, if_pos rfl, hremaining, Spot.insertInto_of_cuts hcuts hnodup]
    children_of_ne := fun q hq => (hchildren q).trans (if_neg hq) }

theorem Inserts.subtree (hinserts : d.Inserts d' n p left right) (h' : d'.WellFormed)
    (hp : ¬ d.LiesIn p n) : d'.subtree n = d.subtree n := by
  refine h.subtree_congr h' hinserts.fresh fun m hm => ?_
  rw [hinserts.children_of_ne m fun heq => hp (heq ▸ hm), List.erase_of_not_mem fun hmem => ?_]
  exact h.not_liesIn_of_parent? (h.parent?_eq_some_iff.2 hmem) hm

theorem Inserts.replaces {d'' : Document} (hinserts : d.Inserts d' new p left (old :: right))
    (h' : d'.WellFormed) (hreleases : d'.Releases d'' [old]) (hp : d.parent? old = some p)
    (hne : new ≠ old) : d.Replaces d'' p new old left right where
  toRelinked := hinserts.toRelinked.trans hreleases.toRelinked
  remaining := hinserts.remaining
  parent? m := by
    rw [hreleases.parent?, hinserts.parent?]
    simp only [List.mem_singleton]
  children := by
    have hnodup := h'.nodup_children p
    have hsplit : left ++ new :: old :: right = (left ++ [new]) ++ old :: right := by simp
    rw [hinserts.children, hsplit, List.nodup_middle, List.nodup_cons] at hnodup
    rw [hreleases.children, hinserts.children, hsplit, List.filter_append,
      List.filter_cons_of_neg (by simp), ← List.filter_append, List.filter_eq_self.2 fun m hm => ?_]
    · simp
    · exact decide_eq_true fun hmem => hnodup.1 (List.mem_singleton.1 hmem ▸ hm)
  children_of_ne q hq := by
    rw [hreleases.children, hinserts.children_of_ne q hq, List.filter_eq_self]
    refine fun m hm => decide_eq_true fun hmem => hq ?_
    obtain rfl := List.mem_singleton.1 hmem
    have hparent := h.parent?_eq_some_iff.2 (List.mem_of_mem_erase hm)
    exact Option.some.inj (hparent.symm.trans hp)

theorem Replaces.subtree_old (hreplaces : d.Replaces d' p new old left right) (h' : d'.WellFormed)
    (hp : d.parent? old = some p) (hnew : ¬ d.LiesIn old new) :
    d'.subtree old = (d.subtree old).filter fun m => ¬ d.LiesIn m new := by
  have hrest : d'.subtree old = (d.subtree old).filter fun m => ∀ r ∈ [new], ¬ d.LiesIn m r := by
    refine h.subtree_without h' hreplaces.fresh (by simpa using hnew) fun m hm _ => ?_
    have hne : m ≠ p := fun heq => h.not_liesIn_of_parent? hp (heq ▸ hm)
    rw [hreplaces.children_of_ne m hne, (h.nodup_children m).erase_eq_filter]
    exact List.filter_congr fun c _ => by rw [Bool.eq_iff_iff]; simp
  simpa using hrest

theorem Replaces.subtree_new (hreplaces : d.Replaces d' p new old left right) (h' : d'.WellFormed)
    (hp : ¬ d.LiesIn p new) : d'.subtree new = d.subtree new := by
  refine h.subtree_congr h' hreplaces.fresh fun m hm => ?_
  rw [hreplaces.children_of_ne m fun heq => hp (heq ▸ hm), List.erase_of_not_mem fun hmem => ?_]
  exact h.not_liesIn_of_parent? (h.parent?_eq_some_iff.2 hmem) hm

/-! Moves that succeed. -/

theorem WellFormed.move_inserts (hspot : d.Has spot) (hn : d.isAllocated n)
    (hmove : d.move spot n = .ok d') :
    if spot.isNextTo n then d' = d
    else ∃ p left right, spot.parent? d = some p ∧ spot.Cuts left right ∧
      d.Inserts d' n p left right ∧ d'.subtree n = d.subtree n := by
  rw [move] at hmove
  cases haccepted : d.refusal? spot n with
  | some e => simp [haccepted] at hmove
  | none =>
    obtain rfl : d.put spot n = d' := by simpa [haccepted] using hmove
    split
    · rename_i hnext
      exact put_of_isNextTo hnext
    · rename_i hnext
      obtain ⟨p, hp, haccepts⟩ := refusal?_eq_none_iff.1 haccepted
      obtain ⟨left, right, hcuts, hinserts⟩ :=
        h.inserts_put hn (h.isAllocated_spotParent hspot hp) hp hnext
      refine ⟨p, left, right, hp, hcuts, hinserts, ?_⟩
      exact hinserts.subtree h (h.put hn hspot haccepted) (accepts_iff.1 (haccepts.resolve_left hnext)).2

theorem WellFormed.replaceChild_replaces (hnew : d.isAllocated new)
    (hreplace : d.replaceChild p new old = .ok d') :
    old ∈ d.children p ∧ if new = old then d' = d
    else ∃ left right, d.Replaces d' p new old left right ∧ d'.subtree new = d.subtree new ∧
      d'.subtree old = (d.subtree old).filter fun m => ¬ d.LiesIn m new := by
  rw [replaceChild] at hreplace
  split at hreplace
  · cases hreplace
  rename_i hold
  rw [not_not] at hold
  refine ⟨h.parent?_eq_some_iff.1 hold, ?_⟩
  split at hreplace
  · rename_i heq
    rw [if_pos heq]
    exact (Except.ok.inj hreplace).symm
  rename_i hne
  rw [if_neg hne]
  cases haccepted : d.refusal? (.before old) new with
  | some e => simp [haccepted] at hreplace
  | none =>
    obtain rfl : (d.put (.before old) new).detach old = d' := by simpa [haccepted] using hreplace
    have hnext : ¬ (Spot.before old).isNextTo new := by simpa [Spot.isNextTo] using Ne.symm hne
    obtain ⟨q, hq, haccepts⟩ := refusal?_eq_none_iff.1 haccepted
    obtain rfl : p = q := Option.some.inj (hold.symm.trans hq)
    have hfree := (accepts_iff.1 (haccepts.resolve_left hnext)).2
    obtain ⟨left, rest, hcuts, hinserts⟩ := h.inserts_put hnew (h.isAllocated_parent hold) hq hnext
    obtain ⟨right, rfl⟩ := List.head?_eq_some_iff.1 hcuts
    have hput := h.put hnew (show d.Has (.before old) from isAllocated_of_parent? hold) haccepted
    have hreplaces := hinserts.replaces h hput (hput.releases_detach old) hold hne
    refine ⟨left, right, hreplaces, hreplaces.subtree_new h (hput.detach old) hfree,
      hreplaces.subtree_old h (hput.detach old) hold fun hlies => hfree ?_⟩
    exact (isWithin_iff_of_parent? hold).1 (hlies.resolve_left (Ne.symm hne))

end WellFormed

/-- All that a change of the tree does when it succeeds: to the children of every node, to all parents, to
the data of the nodes and to the roots. -/
theorem rearranges_exactly (d : Document) (h : d.WellFormed) :
    (∀ spot n d', d.Has spot → d.isAllocated n → d.move spot n = .ok d' →
      if spot.isNextTo n then d' = d
      else ∃ p left right, spot.parent? d = some p ∧ spot.Cuts left right ∧
        d.Inserts d' n p left right ∧ d'.subtree n = d.subtree n) ∧
    (∀ p n d', d.isAllocated p → d.isAllocated n → d.insertBefore p n none = .ok d' →
      ∃ left, d.Inserts d' n p left [] ∧ d'.subtree n = d.subtree n) ∧
    (∀ p n s d', d.isAllocated n → d.insertBefore p n (some s) = .ok d' →
      s ∈ d.children p ∧ if s = n then d' = d
      else ∃ left right, d.Inserts d' n p left (s :: right) ∧ d'.subtree n = d.subtree n) ∧
    (∀ p new old d', d.isAllocated new → d.replaceChild p new old = .ok d' →
      old ∈ d.children p ∧ if new = old then d' = d
      else ∃ left right, d.Replaces d' p new old left right ∧ d'.subtree new = d.subtree new ∧
        d'.subtree old = (d.subtree old).filter fun m => ¬ d.LiesIn m new) ∧
    (∀ p n d', d.removeChild p n = .ok d' →
      n ∈ d.children p ∧ d.Releases d' [n] ∧ d'.subtree n = d.subtree n) ∧
    (∀ n, d.Releases (d.detach n) [n] ∧ (d.detach n).subtree n = d.subtree n) ∧
    ∀ n, d.Releases (d.clearChildren n) (d.children n) ∧ (d.clearChildren n).children n = [] ∧
      ∀ m ∈ d.children n, (d.clearChildren n).subtree m = d.subtree m := by
  refine ⟨fun spot n d' => h.move_inserts, fun p n d' hp hn hmove => ?_, fun p n s d' hn hinsert => ?_,
    fun p new old d' => h.replaceChild_replaces, fun p n d' hremove => ?_,
    fun n => ⟨h.releases_detach n, h.subtree_detach n⟩,
    fun n => ⟨h.releases_clearChildren n, ?_, fun m => h.subtree_clearChildren⟩⟩
  · obtain ⟨q, left, right, hq, rfl, hinserts⟩ := h.move_inserts (show d.Has (.lastIn p) from hp) hn hmove
    obtain rfl := Option.some.inj hq
    exact ⟨left, hinserts⟩
  · rw [insertBefore] at hinsert
    split at hinsert
    · rename_i hs
      refine ⟨h.parent?_eq_some_iff.1 hs, ?_⟩
      have hmove := h.move_inserts (show d.Has (.before s) from isAllocated_of_parent? hs) hn hinsert
      simp only [Spot.isNextTo, decide_eq_true_eq] at hmove
      split
      · rename_i heq
        rwa [if_pos heq] at hmove
      · rename_i hne
        rw [if_neg hne] at hmove
        obtain ⟨q, left, rest, hq, hcuts, hinserts⟩ := hmove
        obtain rfl : p = q := Option.some.inj (hs.symm.trans hq)
        obtain ⟨right, rfl⟩ := List.head?_eq_some_iff.1 hcuts
        exact ⟨left, right, hinserts⟩
    · cases hinsert
  · rw [removeChild] at hremove
    split at hremove
    · rename_i hp
      obtain rfl := Except.ok.inj hremove
      exact ⟨h.parent?_eq_some_iff.1 hp, h.releases_detach n, h.subtree_detach n⟩
    · cases hremove
  · rw [(h.releases_clearChildren n).children, List.filter_eq_nil_iff]
    simp

/-- A node goes before its left neighbour, and a node is replaced by one that lies in it. -/
theorem rearranges_exactly_siblings :
    let d : Document := { slots := #[
      some { kind := .element { tag := "ul" }, children := [1, 2, 3] },
      some { kind := .element { tag := "li" }, parent := some 0 },
      some { kind := .element { tag := "li" }, parent := some 0 },
      some { kind := .element { tag := "li" }, parent := some 0, children := [4, 5] },
      some { kind := .element { tag := "b" }, parent := some 3 },
      some { kind := .text "t", parent := some 3 }] }
    d.WellFormed ∧
      (∃ d', d.move (.before 2) 3 = .ok d' ∧ d'.children 0 = [1, 3, 2] ∧
        ∀ m, d'.parent? m = if m = 3 then some 0 else d.parent? m) ∧
      (∃ d', d.replaceChild 0 4 3 = .ok d' ∧ d'.children 0 = [1, 2, 4] ∧ d'.subtree 3 = [3, 5] ∧
        ∀ m, d'.parent? m = if m = 3 then none else if m = 4 then some 0 else d.parent? m) ∧
      d.Releases (d.clearChildren 3) [4, 5] := by
  intro d
  have h : d.WellFormed := by decide +kernel
  obtain ⟨hmoves, -, -, hreplaces, -, -, hclears⟩ := rearranges_exactly d h
  refine ⟨h, ⟨_, rfl, by decide +kernel, ?_⟩, ⟨_, rfl, by decide +kernel, by decide +kernel, ?_⟩,
    (hclears 3).1⟩
  · have hmove := hmoves (.before 2) 3 _ (by decide +kernel) (by decide +kernel) rfl
    rw [if_neg (by decide)] at hmove
    obtain ⟨p, left, right, hp, -, hinserts, -⟩ := hmove
    obtain rfl : 0 = p := Option.some.inj ((by decide +kernel : d.parent? 2 = some 0).symm.trans hp)
    exact hinserts.parent?
  · obtain ⟨-, hreplace⟩ := hreplaces 0 4 3 _ (by decide +kernel) rfl
    rw [if_neg (by decide)] at hreplace
    obtain ⟨left, right, hreplaces, -⟩ := hreplace
    exact hreplaces.parent?

end Document
end DomQuery
