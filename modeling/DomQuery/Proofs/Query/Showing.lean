import DomQuery.Proofs.Document.Soundness
import DomQuery.Proofs.Query.Visibility

/-!
What stays visible while nodes are handed out. A node that is put next to one at the top is visible only
when it becomes a root itself, which happens at the end for all that was placed; so visibility is followed
with the nodes that are going to be adopted.
-/
namespace DomQuery.Document
variable {d d' : Document} {S M : NodeId → Prop} {n m p r c target : NodeId} {spot : Spot} {way : Place}
  {ns ms nodes originals targets : List NodeId}

/-! Nodes that are shown. -/

def Heads (d : Document) (ns : List NodeId) (r : NodeId) : Prop :=
  r ∈ d.liveRoots ∨ r ∈ ns ∧ (d.parent? r).any d.isFragment = true

/-- Visible as soon as the nodes of the list are adopted. -/
def Shows (d : Document) (ns : List NodeId) (m : NodeId) : Prop := ∃ r, d.Heads ns r ∧ d.LiesIn m r

theorem isTopLevel_of_any (h : (d.parent? r).any d.isFragment = true) : d.isTopLevel r = true := by
  rw [isTopLevel]
  cases hp : d.parent? r <;> simp_all

theorem Heads.isTopLevel (h : d.Heads ns r) : d.isTopLevel r = true :=
  h.elim (fun hr => (mem_liveRoots.1 hr).2) fun hr => isTopLevel_of_any hr.2

theorem mem_roots_register : r ∈ (d.register ns).roots ↔ r ∈ d.roots ∨ r ∈ ns := by
  refine ⟨mem_roots_of_register, fun hr => ?_⟩
  rw [register]
  have hfold (ns roots : List NodeId) (hr : r ∈ roots ∨ r ∈ ns) :
      r ∈ ns.foldl (fun roots n => if roots.contains n then roots else roots ++ [n]) roots := by
    induction ns generalizing roots with
    | nil => exact hr.resolve_right List.not_mem_nil
    | cons n ns ih =>
      refine ih _ ?_
      rw [List.mem_cons] at hr
      by_cases hn : n ∈ roots <;> simp only [List.contains_iff_mem, hn, if_true, if_false] <;> grind
  exact hfold ns d.roots hr

theorem visible_adoptTopLevel : (d.adoptTopLevel ns).Visible m ↔ d.Shows ns m := by
  have hheads (r : NodeId) : r ∈ (d.adoptTopLevel ns).liveRoots ↔ d.Heads ns r := by
    have htop : (d.adoptTopLevel ns).isTopLevel r = d.isTopLevel r := rfl
    rw [mem_liveRoots, htop, adoptTopLevel, mem_roots_register, List.mem_filter, Heads, mem_liveRoots,
      or_and_right]
    refine or_congr_right (and_iff_left_of_imp fun hr => isTopLevel_of_any hr.2)
  have hlies (r : NodeId) : (d.adoptTopLevel ns).LiesIn m r ↔ d.LiesIn m r := by
    rw [liesIn_iff, liesIn_iff]
    rfl
  simp only [Visible, Shows, hheads, hlies]

theorem shows_nil : d.Shows [] m ↔ d.Visible m := visible_adoptTopLevel.symm

theorem Visible.shows (h : d.Visible m) (ns : List NodeId) : d.Shows ns m := by
  obtain ⟨r, hr, hm⟩ := h
  exact ⟨r, .inl hr, hm⟩

theorem Shows.of_liesIn (h : d.Shows ns n) (hm : d.LiesIn m n) : d.Shows ns m := by
  obtain ⟨r, hr, hn⟩ := h
  exact ⟨r, hr, hm.trans hn⟩

theorem Shows.parent (h : d.Shows ns n) (hp : d.parent? n = some p) :
    d.Shows ns p ∨ d.isFragment p = true := by
  obtain ⟨r, hr, hn⟩ := h
  rcases hn with rfl | hn
  · have htop := hr.isTopLevel
    rw [isTopLevel, hp] at htop
    exact .inr htop
  · exact .inl ⟨r, hr, (isWithin_iff_of_parent? hp).1 hn⟩

/-! Moving. -/

theorem Heads.of_put (hn : d.isAllocated n) (hp : spot.parent? d = some p) (hr : r ≠ n)
    (h : d.Heads ns r) : (d.put spot n).Heads ns r := by
  have hparent : (d.put spot n).parent? r = d.parent? r := by rw [parent?_put hn hp, if_neg hr]
  have hfragment : (d.put spot n).isFragment = d.isFragment :=
    funext fun x => isFragment_congr (data?_put d spot n x)
  rw [Heads, mem_liveRoots, Document.isTopLevel, roots_put, hparent, hfragment]
  rwa [Heads, mem_liveRoots] at h

/-- A node that goes to a shown parent, or as one of the list into a fragment, is shown with all below
it, and the others stay as they are. -/
theorem Shows.put (hn : d.isAllocated n) (hp : spot.parent? d = some p)
    (haccepted : d.refusal? spot n = none) (hhead : d.Shows ns p ∨ d.isFragment p = true ∧ n ∈ ns) :
    (∀ m, d.Shows ns m → (d.put spot n).Shows ns m) ∧ (d.put spot n).Shows ns n := by
  have hplaced : (d.put spot n).parent? n = some p := by rw [parent?_put hn hp, if_pos rfl]
  have hfragment : (d.put spot n).isFragment p = d.isFragment p :=
    isFragment_congr (data?_put d spot n p)
  obtain ⟨q, hq, haccepts⟩ := refusal?_eq_none_iff.1 haccepted
  obtain rfl := Option.some.inj (hp.symm.trans hq)
  -- a parent that is shown stays so, because its tree does not come by the node
  have hshown (hparent : (d.put spot n).Shows ns p ∨ d.isFragment p = true ∧ n ∈ ns) :
      (d.put spot n).Shows ns n := by
    rcases hparent with hparent | ⟨hfragment', hmem⟩
    · exact hparent.of_liesIn (.inr (isWithin_of_parent? hplaced))
    · refine ⟨n, .inr ⟨hmem, ?_⟩, .inl rfl⟩
      rw [hplaced, Option.any_some, hfragment, hfragment']
  by_cases hnext : spot.isNextTo n
  · rw [put_of_isNextTo hnext] at hshown ⊢
    exact ⟨fun m hm => hm, hshown hhead⟩
  have hsame : ∀ x ≠ n, (d.put spot n).parent? x = d.parent? x := by
    intro x hx
    rw [parent?_put hn hp, if_neg hx]
  have hkept (m : NodeId) (hout : ¬ d.LiesIn m n) (hm : d.Shows ns m) : (d.put spot n).Shows ns m := by
    obtain ⟨r, hr, hlies⟩ := hm
    have hne : r ≠ n := fun heq => hout (heq ▸ hlies)
    exact ⟨r, hr.of_put hn hp hne, (liesIn_of_avoids hsame hout).2 hlies⟩
  have hapart := (accepts_iff.1 (haccepts.resolve_left hnext)).2
  have hnode := hshown (hhead.imp_left (hkept p hapart))
  refine ⟨fun m hm => ?_, hnode⟩
  by_cases hin : d.LiesIn m n
  · exact hnode.of_liesIn ((liesIn_relinked hsame).2 hin)
  · exact hkept m hin hm

/-! Growing. -/

theorem Sound.heads_of_grows (h : d.Sound) (hgrows : d.Grows d') (hr : d.Heads ns r) :
    d'.Heads ns r := by
  have hallocated : d.isAllocated r := by
    rcases hr with hr | ⟨-, hr⟩
    · exact h.isAllocated_of_mem_roots r (mem_liveRoots.1 hr).1
    · cases hp : d.parent? r with
      | none => simp [hp] at hr
      | some p => exact isAllocated_of_parent? hp
  have hparent := hgrows.parent?_of_lt (lt_fresh hallocated)
  have hfragment (p : NodeId) (hp : d.parent? r = some p) : d'.isFragment p = d.isFragment p :=
    isFragment_congr (hgrows.toExtends.data? p (lt_fresh (h.toWellFormed.isAllocated_parent hp)))
  rw [Heads, mem_liveRoots, Document.isTopLevel] at hr ⊢
  rw [hgrows.roots, hparent]
  cases hp : d.parent? r with
  | none => simpa [hp] using hr
  | some p => simpa [hp, hfragment p hp] using hr

theorem Sound.shows_of_grows (h : d.Sound) (hgrows : d.Grows d') (hm : d.Shows ns m) :
    d'.Shows ns m := by
  obtain ⟨r, hr, hlies⟩ := hm
  exact ⟨r, h.heads_of_grows hgrows hr, hgrows.liesIn hlies⟩

theorem Sound.visible_of_grows (h : d.Sound) (hgrows : d.Grows d') (hm : d.Visible m) :
    d'.Visible m := shows_nil.1 (h.shows_of_grows hgrows (hm.shows []))

/-! Placing. -/

theorem WellFormed.shows_placeFrom (h : d.WellFormed) (hnodes : ∀ n ∈ nodes, d.isAllocated n)
    (hp : spot.parent? d = some p) (hallocated : d.isAllocated p)
    (hinside : way = .prepend → p = target)
    (hhead : d.Shows ns p ∨
      d.isFragment p = true ∧ ∀ n ∈ (d.placeFrom way target spot nodes).2, n ∈ ns) :
    (∀ m, d.Shows ns m → (d.placeFrom way target spot nodes).1.Shows ns m) ∧
      ∀ n ∈ (d.placeFrom way target spot nodes).2,
        (d.placeFrom way target spot nodes).1.Shows ns n := by
  induction nodes generalizing d spot with
  | nil => exact ⟨fun _ => id, nofun⟩
  | cons n nodes ih =>
    obtain ⟨hn, hrest⟩ := List.forall_mem_cons.1 hnodes
    rw [Document.placeFrom] at hhead ⊢
    split at hhead
    · rename_i hrefused
      rw [if_pos hrefused]
      exact ih h hrest hp hallocated hhead
    · rename_i haccepted
      rw [if_neg haccepted]
      have hnone := Option.not_isSome_iff_eq_none.1 haccepted
      have hmore := extends_put d spot n
      have hd := h.put hn (has_of_parent? hp hallocated) hnone
      have hnext := Place.parent?_nextSpot hd hn hp hinside
      obtain ⟨hkept, hshown⟩ := Shows.put hn hp hnone
        (hhead.imp_right (And.imp_right fun hmem => hmem n List.mem_cons_self))
      have hhead' := hhead.imp (hkept p) (And.imp (fun hfragment =>
        (isFragment_congr (data?_put d spot n p)).trans hfragment) fun hmem m hm =>
          hmem m (List.mem_cons_of_mem n hm))
      obtain ⟨hkept', hshown'⟩ := ih hd (fun m hm => hmore.isAllocated (hrest m hm)) hnext
        (hmore.isAllocated hallocated) hhead'
      exact ⟨fun m hm => hkept' m (hkept m hm),
        List.forall_mem_cons.2 ⟨hkept' n hshown, hshown'⟩⟩

theorem WellFormed.shows_place (h : d.WellFormed) (hnodes : ∀ n ∈ nodes, d.isAllocated n)
    (htarget : d.isAllocated target) (hshown : d.Shows ns target)
    (hplaced : way.isBeside = true → ∀ n ∈ (d.place way target nodes).2, n ∈ ns) :
    (∀ m, d.Shows ns m → (d.place way target nodes).1.Shows ns m) ∧
      ∀ n ∈ (d.place way target nodes).2, (d.place way target nodes).1.Shows ns n := by
  rw [Document.place] at hplaced ⊢
  cases hp : (way.spot d target).parent? d with
  | none =>
    rw [placeFrom_of_parent?_eq_none hp]
    exact ⟨fun _ => id, List.forall_mem_nil _⟩
  | some p =>
    rcases Place.parent?_spot h hp with ⟨rfl, hinside⟩ | ⟨hparent, hbeside⟩
    · exact h.shows_placeFrom hnodes hp htarget (fun _ => rfl) (.inl hshown)
    · refine h.shows_placeFrom hnodes hp (h.isAllocated_parent hparent) ?_ ?_
      · rintro rfl
        cases hbeside
      · exact (hshown.parent hparent).imp_right fun hfragment => ⟨hfragment, hplaced hbeside⟩

theorem Sound.place (h : d.Sound) (way : Place) (hnodes : ∀ n ∈ nodes, d.isAllocated n)
    (htarget : d.isAllocated target) :
    (d.place way target nodes).1.Sound ∧
      ∀ n, d.isAllocated n → (d.place way target nodes).1.isAllocated n := by
  obtain ⟨hmoves, -⟩ := h.toWellFormed.place (S := fun _ => False) (M := fun _ => True) way
    (fun _ _ _ => id) (fun n hn => ⟨hnodes n hn, trivial⟩) ⟨htarget, id⟩
  exact ⟨(h.evolves_of_moves (E := fun _ => False) hmoves).sound, fun n => hmoves.isAllocated⟩

theorem Sound.shows_placeCopies (h : d.Sound) (htargets : ∀ t ∈ targets, d.isAllocated t ∧ d.Shows ns t)
    (hplaced : way.isBeside = true → ∀ n ∈ (d.placeCopies way originals targets).2, n ∈ ns) :
    (∀ m, d.Shows ns m → (d.placeCopies way originals targets).1.Shows ns m) ∧
      ∀ n ∈ (d.placeCopies way originals targets).2,
        (d.placeCopies way originals targets).1.Shows ns n := by
  induction targets generalizing d with
  | nil => exact ⟨fun _ => id, nofun⟩
  | cons t targets ih =>
    obtain ⟨⟨ht, htshown⟩, hrest⟩ := List.forall_mem_cons.1 htargets
    rw [Document.placeCopies] at hplaced ⊢
    have hadds := h.toWellFormed.adds_copyAll originals
    have hcopies := (h.evolves_of_adds (E := fun _ => False) hadds).sound
    have hgrown (m : NodeId) (hm : d.Shows ns m) := h.shows_of_grows hadds.grows hm
    have hold (m : NodeId) (hm : d.isAllocated m) := hadds.grows.toExtends.isAllocated hm
    obtain ⟨hsound, hallocated⟩ := hcopies.place way (fun n hn => (hadds.of_mem n hn).2) (hold t ht)
    obtain ⟨hkept, hshown⟩ := hcopies.toWellFormed.shows_place
      (fun n hn => (hadds.of_mem n hn).2) (hold t ht) (hgrown t htshown)
      fun hbeside n hn => hplaced hbeside n (List.mem_append_left _ hn)
    obtain ⟨hkept', hshown'⟩ := ih hsound (fun u hu =>
      ⟨hallocated u (hold u (hrest u hu).1), hkept u (hgrown u (hrest u hu).2)⟩)
      fun hbeside n hn => hplaced hbeside n (List.mem_append_right _ hn)
    refine ⟨fun m hm => hkept' m (hkept m (hgrown m hm)), List.forall_mem_append.2 ⟨?_, hshown'⟩⟩
    exact fun n hn => hkept' n (hshown n hn)

theorem Sound.visible_distribute (h : d.Sound) (way : Place)
    (horiginals : ∀ n ∈ originals, d.isAllocated n)
    (htargets : ∀ t ∈ targets, d.isAllocated t ∧ d.Visible t) :
    (∀ m, d.Visible m → (d.distribute way targets originals).1.Visible m) ∧
      ∀ n ∈ (d.distribute way targets originals).2,
        (d.distribute way targets originals).1.Visible n := by
  cases targets with
  | nil => exact ⟨fun _ => id, nofun⟩
  | cons first rest =>
    obtain ⟨⟨hfirst, hvisible⟩, hrest⟩ := List.forall_mem_cons.1 htargets
    simp only [Document.distribute]
    generalize hall : (d.place way first originals).2 ++
      ((d.place way first originals).1.placeCopies way originals rest).2 = placed
    -- the nodes that are adopted in the end
    let ns := if way.isBeside then placed else []
    have hresult : (if way.isBeside = true then
        ((d.place way first originals).1.placeCopies way originals rest).1.adoptTopLevel placed
        else ((d.place way first originals).1.placeCopies way originals rest).1) =
        ((d.place way first originals).1.placeCopies way originals rest).1.adoptTopLevel ns := by
      simp only [ns]
      split <;> rfl
    have hns (hbeside : way.isBeside = true) (n : NodeId) (hn : n ∈ placed) : n ∈ ns := by
      simp only [ns, if_pos hbeside]
      exact hn
    rw [← hall] at hns
    obtain ⟨hsound, hallocated⟩ := h.place way horiginals hfirst
    obtain ⟨hkept, hshown⟩ := h.toWellFormed.shows_place horiginals hfirst (hvisible.shows ns)
      fun hbeside n hn => hns hbeside n (List.mem_append_left _ hn)
    obtain ⟨hkept', hshown'⟩ := hsound.shows_placeCopies (fun t ht =>
      ⟨hallocated t (hrest t ht).1, hkept t ((hrest t ht).2.shows ns)⟩)
      fun hbeside n hn => hns hbeside n (List.mem_append_right _ hn)
    rw [hresult]
    simp only [visible_adoptTopLevel]
    refine ⟨fun m hm => hkept' m (hkept m (hm.shows ns)), fun n hn => ?_⟩
    rw [← hall] at hn
    exact (List.mem_append.1 hn).elim (fun hn => hkept' n (hshown n hn)) (hshown' n)

/-! Freeing. -/

theorem WellFormed.visible_discard (h : d.WellFormed) (hc : d.isAllocated c)
    (hroots : ∀ r ∈ d.roots, ¬ d.LiesIn r c ∧ ¬ d.LiesIn c r) (hm : d.Visible m) :
    (d.discard c).Visible m := by
  obtain ⟨r, hr, hlies⟩ := hm
  obtain ⟨hroot, htop⟩ := mem_liveRoots.1 hr
  obtain ⟨hbelow, habove⟩ := hroots r hroot
  have hout (x : NodeId) (hx : d.LiesIn x r) : ¬ d.LiesIn x c := fun hxc =>
    (liesIn_total hx hxc).elim hbelow habove
  refine ⟨r, mem_liveRoots.2 ⟨by rwa [roots_discard], ?_⟩, (h.liesIn_discard hc (hout m hlies)).2 hlies⟩
  rwa [h.isTopLevel_discard hc hbelow]

theorem Sound.not_liesIn_scratch {read : Document} (h : d.Sound) (hadds : d.Adds read ns)
    (hcontainer : read.isAllocated d.fresh)
    (hmoves : read.Moves (fun n => d.fresh ≤ n ∧ n < read.fresh) M d')
    (hM : ∀ x, read.LiesIn d.fresh x → ¬ M x) (hr : r ∈ d'.roots) :
    ¬ d'.LiesIn r d.fresh ∧ ¬ d'.LiesIn d.fresh r := by
  refine hadds.apart_scratch hcontainer hmoves hM ?_
  rcases hmoves.of_mem_roots r hr with hr | ⟨-, hfree⟩
  · rw [hadds.grows.roots] at hr
    exact .inl fun hset => Nat.not_lt_of_le hset.1 (lt_fresh (h.isAllocated_of_mem_roots r hr))
  · exact hfree

theorem Sound.visible_discardScratch {read : Document} (h : d.Sound) (hadds : d.Adds read ns)
    (hscratch : ∀ n ∈ ns, read.parent? n = some d.fresh)
    (hmoves : read.Moves (fun n => d.fresh ≤ n ∧ n < read.fresh) M d')
    (hM : ns ≠ [] → ∀ x, read.LiesIn d.fresh x → ¬ M x) (hm : d'.Visible m) :
    (d'.discardScratch (read.scratch? ns)).Visible m := by
  cases hns : ns with
  | nil => exact hm
  | cons n rest =>
    have hparent := hscratch n (hns ▸ List.mem_cons_self)
    have hcontainer := hadds.wellFormed.isAllocated_parent hparent
    have hscratch? : read.scratch? (n :: rest) = some d.fresh := hparent
    rw [hscratch?]
    exact hmoves.wellFormed.visible_discard (hmoves.isAllocated hcontainer)
      (fun r hr => h.not_liesIn_scratch hadds hcontainer hmoves (hM (by simp [hns])) hr) hm

theorem Sound.visible_distribute_markup {read : Document} (h : d.Sound) (hadds : d.Adds read ns)
    (hscratch : ∀ n ∈ ns, read.parent? n = some d.fresh) (way : Place)
    (htargets : ∀ t ∈ targets, d.isAllocated t ∧ d.Visible t) :
    (∀ m, d.Visible m →
      ((read.distribute way targets ns).1.discardScratch (read.scratch? ns)).Visible m) ∧
      ∀ n ∈ (read.distribute way targets ns).2,
        ((read.distribute way targets ns).1.discardScratch (read.scratch? ns)).Visible n := by
  have hread := (h.evolves_of_adds (E := fun _ => False) hadds).sound
  have hgrown {m : NodeId} (hm : d.Visible m) : read.Visible m := h.visible_of_grows hadds.grows hm
  obtain ⟨hkept, hplaced⟩ := hread.visible_distribute way (fun n hn => (hadds.of_mem n hn).2)
    fun t ht => (htargets t ht).imp hadds.grows.toExtends.isAllocated hgrown
  have hrest {m : NodeId} := h.visible_discardScratch (m := m) hadds hscratch
    (hadds.moves_distribute way fun t ht => (htargets t ht).1).1
    fun hne x hx => hadds.not_given_of_above hscratch hne hx
  exact ⟨fun m hm => hrest (hkept m (hgrown hm)), fun n hn => hrest (hplaced n hn)⟩

end DomQuery.Document
