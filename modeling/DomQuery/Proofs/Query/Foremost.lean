import DomQuery.Proofs.Document.Enclosing
import DomQuery.Proofs.Query.Showing

/-!
The order of what a bare selector finds. It lists tree after tree, and the trees come as those live roots
stand that lie in no other one. A change that keeps the order in each tree is described in full by what it
does to the list of these roots.
-/
namespace DomQuery.Document
variable {d d' d'' : Document} {O : NodeId → Prop} {n m a c o r x y p wrapper inner : NodeId}
  {inside extra ns : List NodeId} {selector : Selector}

/-- The live roots that lie in no other. -/
def foremost (d : Document) : List NodeId :=
  d.liveRoots.filter fun r => !d.liveRoots.any (d.isWithin r ·)

theorem rootTrees_liveRoots : d.rootTrees d.liveRoots = d.foremost.map d.top := rfl

theorem mem_foremost : r ∈ d.foremost ↔ r ∈ d.liveRoots ∧ ∀ o ∈ d.liveRoots, ¬ d.isWithin r o := by
  rw [foremost, List.mem_filter]
  simp

theorem WellFormed.exists_foremost (h : d.WellFormed) (hn : d.Visible n) :
    ∃ o ∈ d.foremost, d.LiesIn n o := by
  obtain ⟨r, hr, hn⟩ := hn
  obtain ⟨o, ho, hfree, hlies⟩ := h.exists_outermost hr
  exact ⟨o, mem_foremost.2 ⟨ho, hfree⟩, hn.trans hlies⟩

theorem foremost_eq : d.foremost = d.roots.filter (· ∈ d.foremost) := by
  have hmem (r : NodeId) (hr : r ∈ d.roots) : decide (r ∈ d.foremost) =
      (d.isTopLevel r && !d.liveRoots.any (d.isWithin r ·)) := by
    rw [Bool.eq_iff_iff, decide_eq_true_iff, foremost, List.mem_filter, mem_liveRoots, Bool.and_eq_true]
    exact and_congr_left' (and_iff_right hr)
  rw [List.filter_congr hmem, foremost, liveRoots, List.filter_filter]
  exact List.filter_congr fun r _ => Bool.and_comm ..

theorem foremost_of_mem_iff (keep : NodeId → Bool) (hroots : d'.roots = d.roots ++ extra)
    (hkeep : ∀ r ∈ d.roots, r ∈ d'.foremost ↔ r ∈ d.foremost ∧ keep r = true) :
    d'.foremost = d.foremost.filter keep ++ extra.filter (· ∈ d'.foremost) := by
  have hold : d.roots.filter (· ∈ d'.foremost) = d.foremost.filter keep := by
    rw [foremost_eq (d := d), List.filter_filter]
    refine List.filter_congr fun r hr => ?_
    rw [Bool.eq_iff_iff, decide_eq_true_iff, hkeep r hr, Bool.and_eq_true, decide_eq_true_iff, and_comm]
  conv_lhs => rw [foremost_eq, hroots, List.filter_append, hold]

theorem foremost_congr (hroots : d'.roots = d.roots)
    (htop : ∀ r ∈ d.roots, d'.isTopLevel r = d.isTopLevel r)
    (hwithin : ∀ r ∈ d.roots, ∀ o ∈ d.roots, d'.isWithin r o = d.isWithin r o) :
    d'.foremost = d.foremost := by
  have hlive : d'.liveRoots = d.liveRoots := by
    rw [liveRoots, hroots]
    exact List.filter_congr htop
  rw [foremost, foremost, hlive]
  refine List.filter_congr fun r hr => congrArg _ ?_
  rw [Bool.eq_iff_iff, List.any_eq_true, List.any_eq_true]
  refine exists_congr fun o => and_congr_right fun ho => ?_
  rw [hwithin r (mem_liveRoots.1 hr).1 o (mem_liveRoots.1 ho).1]

/-! The order in each tree. -/

/-- The nodes of a set stand in the trees in which they stood, in the same order. -/
structure Settled (O : NodeId → Prop) (d d' : Document) : Prop where
  precedes : ∀ x y, O x → O y → d.Precedes x y → d'.Precedes x y
  top : ∀ x, O x → d'.top x = d.top x

theorem Settled.refl (O : NodeId → Prop) (d : Document) : d.Settled O d :=
  ⟨fun _ _ _ _ => id, fun _ _ => rfl⟩

theorem Settled.trans (h : d.Settled O d') (h' : d'.Settled O d'') : d.Settled O d'' where
  precedes x y hx hy hxy := h'.precedes x y hx hy (h.precedes x y hx hy hxy)
  top x hx := (h'.top x hx).trans (h.top x hx)

theorem Settled.mono {O' : NodeId → Prop} (h : d.Settled O d') (hO : ∀ x, O' x → O x) :
    d.Settled O' d' where
  precedes x y hx hy := h.precedes x y (hO x hx) (hO y hy)
  top x hx := h.top x (hO x hx)

theorem WellFormed.top_lt (h : d.WellFormed) (hx : x < d.fresh) : d.top x < d.fresh := by
  rcases h.liesIn_top x with heq | hwithin
  · exact heq ▸ hx
  · exact h.lt_size_of_isWithin hwithin

section Grows
variable (h : d.Sound) (hgrows : d.Grows d')
include h hgrows

theorem Sound.settled_of_grows (hd : d'.WellFormed) : d.Settled (· < d.fresh) d' where
  precedes x y hx hy hxy := by
    cases hxy with
    | above hwithin => exact .above ((hgrows.isWithin_iff hy).2 hwithin)
    | @beside q u v huv hxu hyv =>
      have hq := lt_fresh (isAllocated_of_mem_children (huv.subset List.mem_cons_self))
      exact .beside (by rwa [hgrows.children_of_lt hq]) (hgrows.liesIn hxu) (hgrows.liesIn hyv)
  top x hx := by
    refine hd.top_eq_of_liesIn (hgrows.liesIn (h.liesIn_top x)) ?_
    rw [hgrows.parent?_of_lt (h.top_lt hx), h.parent?_top]

theorem Sound.foremost_of_grows : d'.foremost = d.foremost := by
  have hlt (r : NodeId) (hr : r ∈ d.roots) : r < d.fresh := lt_fresh (h.isAllocated_of_mem_roots r hr)
  refine foremost_congr hgrows.roots (fun r hr => ?_) fun r hr o _ => ?_
  · rw [isTopLevel, isTopLevel, hgrows.parent?_of_lt (hlt r hr)]
    cases hp : d.parent? r with
    | none => rfl
    | some p =>
      have hp' := lt_fresh (h.isAllocated_parent hp)
      rw [Option.all_some, Option.all_some, isFragment_congr (hgrows.toExtends.data? p hp')]
  · rw [Bool.eq_iff_iff, hgrows.isWithin_iff (hlt r hr)]

end Grows

section Discard
variable (h : d.WellFormed) (hc : d.isAllocated c)
include h hc

theorem WellFormed.settled_discard (hO : ∀ x, O x → ¬ d.LiesIn x c) : d.Settled O (d.discard c) where
  precedes x y hx hy hxy := by
    cases hxy with
    | above hwithin => exact .above ((h.isWithin_discard hc (hO y hy)).2 hwithin)
    | @beside q u v huv hxu hyv =>
      have hu : ¬ d.LiesIn u c := fun hu => hO x hx (hxu.trans hu)
      have hv : ¬ d.LiesIn v c := fun hv => hO y hy (hyv.trans hv)
      have hq : ¬ d.LiesIn q c := fun hq =>
        hu (.trans (.inr (h.isWithin_of_mem_children (huv.subset List.mem_cons_self))) hq)
      have hnot : c ∉ [u, v] := by
        rw [List.mem_pair, not_or]
        exact ⟨fun heq => hu (.inl heq.symm), fun heq => hv (.inl heq.symm)⟩
      refine .beside (p := q) ?_ ((h.liesIn_discard hc (hO x hx)).2 hxu)
        ((h.liesIn_discard hc (hO y hy)).2 hyv)
      rw [h.children_discard hc hq, ← List.erase_of_not_mem hnot]
      exact huv.erase c
  top x hx := by
    have htop := h.liesIn_top x
    refine (h.discard hc).top_eq_of_liesIn ((h.liesIn_discard hc (hO x hx)).2 htop) ?_
    rw [h.parent?_discard hc fun hlies => hO x hx (htop.trans hlies), h.parent?_top]

theorem WellFormed.foremost_discard (hroots : ∀ r ∈ d.roots, ¬ d.LiesIn r c) :
    (d.discard c).foremost = d.foremost := by
  refine foremost_congr (roots_discard d c) (fun r hr => h.isTopLevel_discard hc (hroots r hr))
    fun r hr o _ => ?_
  rw [Bool.eq_iff_iff, h.isWithin_discard hc (hroots r hr)]

end Discard

/-! The order of the list. -/

theorem WellFormed.sublist_select_iff (h : d.WellFormed) (hx : x ∈ d.select selector)
    (hy : y ∈ d.select selector) :
    [x, y].Sublist (d.select selector) ↔ d.ListedBefore d.liveRoots x y := by
  have hlisted {x y : NodeId} (hxy : [x, y].Sublist (d.select selector)) :
      d.ListedBefore d.liveRoots x y :=
    List.pairwise_iff_forall_sublist.1 h.pairwise_query hxy
  refine ⟨hlisted, fun hxy => ?_⟩
  have hne : x ≠ y := fun heq => h.listedBefore_asymm hxy (heq ▸ heq ▸ hxy)
  exact (pair_sublist_or hx hy hne).resolve_right fun hyx => h.listedBefore_asymm hxy (hlisted hyx)

section Selected
variable (h : d.WellFormed) (hd : d'.WellFormed) (hset : d.Settled O d')
include h hd hset

/-- Two nodes that are found before and after stand as before if they are in one tree, and else as the
foremost roots of their trees stand now. -/
theorem Settled.sublist_select_iff (hx : O x ∧ x ∈ d.select selector) (hy : O y ∧ y ∈ d.select selector)
    (hx' : x ∈ d'.select selector) (hy' : y ∈ d'.select selector) :
    [x, y].Sublist (d'.select selector) ↔
      (d.top x = d.top y ∧ [x, y].Sublist (d.select selector)) ∨
        (d'.foremost.map d'.top).idxOf (d.top x) < (d'.foremost.map d'.top).idxOf (d.top y) := by
  rw [hd.sublist_select_iff hx' hy', h.sublist_select_iff hx.2 hy.2, ListedBefore, ListedBefore,
    rootTrees_liveRoots, hset.top x hx.1, hset.top y hy.1]
  refine or_congr_left (and_congr_right fun htop => ?_)
  have hbefore (hxy : d.Precedes x y) : d'.Precedes x y := hset.precedes x y hx.1 hy.1 hxy
  have hsame {a b : NodeId} (htop : d.top a = d.top b) (hab : d.ListedBefore d.liveRoots a b) :
      d.Precedes a b := hab.elim And.right fun hlt => absurd hlt (by rw [htop]; exact Nat.lt_irrefl _)
  refine ⟨fun hxy => ?_, fun hxy => hbefore (hsame htop hxy)⟩
  have hne : x ≠ y := fun heq => hd.precedes_asymm hxy (heq ▸ heq ▸ hxy)
  refine (h.sublist_select_iff hx.2 hy.2).1 ((pair_sublist_or hx.2 hy.2 hne).resolve_right fun hyx => ?_)
  have hyx := hsame htop.symm ((h.sublist_select_iff hy.2 hx.2).1 hyx)
  exact hd.precedes_asymm hxy (hset.precedes y x hy.1 hx.1 hyx)

theorem Settled.select_sublist (hO : ∀ x ∈ d.select selector, O x ∧ x ∈ d'.select selector)
    (htrees : d'.foremost.map d'.top = d.foremost.map d.top) :
    (d.select selector).Sublist (d'.select selector) := by
  have hnodup (d : Document) (h : d.WellFormed) : (d.select selector).Nodup :=
    h.nodup_of_pairwise_listedBefore h.pairwise_query
  have hsame : (d'.select selector).filter (· ∈ d.select selector) = d.select selector := by
    have hpairwise : (d.select selector).Pairwise (d'.ListedBefore d'.liveRoots) := by
      refine List.pairwise_iff_forall_sublist.2 fun {x y} hxy => ?_
      have hx := hxy.subset List.mem_cons_self
      have hy := hxy.subset (List.mem_cons_of_mem x List.mem_cons_self)
      have hlisted := (h.sublist_select_iff hx hy).1 hxy
      rw [← hd.sublist_select_iff (hO x hx).2 (hO y hy).2,
        hset.sublist_select_iff h hd ⟨(hO x hx).1, hx⟩ ⟨(hO y hy).1, hy⟩ (hO x hx).2 (hO y hy).2, htrees]
      exact hlisted.imp (fun hprec => ⟨hprec.1, hxy⟩) id
    refine List.Perm.eq_of_pairwise (fun a b _ _ hab hba => absurd hba (hd.listedBefore_asymm hab))
      (List.Pairwise.filter _ hd.pairwise_query) hpairwise ?_
    refine (List.perm_ext_iff_of_nodup ((hnodup d' hd).filter _) (hnodup d h)).2 fun n => ?_
    rw [List.mem_filter, decide_eq_true_iff]
    exact and_iff_right_of_imp fun hn => (hO n hn).2
  rw [← hsame]
  exact List.filter_sublist

end Selected

/-! Changes that hide nothing. -/

/-- Everything visible stays visible and keeps its place in its tree, and the trees now come as in the
list. -/
structure Rearranges (d d' : Document) (trees : List NodeId) : Prop where
  visible : ∀ m, d.Visible m → d'.Visible m
  settled : d.Settled (· < d.fresh) d'
  trees_eq : d'.foremost.map d'.top = trees

theorem Sound.lt_of_mem_foremost (h : d.Sound) (hr : r ∈ d.foremost) : r < d.fresh :=
  lt_fresh (h.isAllocated_of_mem_roots r (mem_liveRoots.1 (mem_foremost.1 hr).1).1)

theorem Settled.trees_eq (h : d.Sound) (hset : d.Settled (· < d.fresh) d')
    (hfore : d'.foremost = d.foremost) : d'.foremost.map d'.top = d.foremost.map d.top := by
  rw [hfore]
  exact List.map_congr_left fun r hr => hset.top r (h.lt_of_mem_foremost hr)

theorem Sound.rearranges_of_grows (h : d.Sound) (hgrows : d.Grows d') (hd : d'.WellFormed) :
    d.Rearranges d' (d.foremost.map d.top) where
  visible _ := h.visible_of_grows hgrows
  settled := h.settled_of_grows hgrows hd
  trees_eq := (h.settled_of_grows hgrows hd).trees_eq h (h.foremost_of_grows hgrows)

theorem Rearranges.trans {trees trees' : List NodeId} (h : d.Rearranges d' trees)
    (h' : d'.Rearranges d'' trees') (hle : d.fresh ≤ d'.fresh) : d.Rearranges d'' trees' where
  visible m hm := h'.visible m (h.visible m hm)
  settled := h.settled.trans (h'.settled.mono fun _ hx => Nat.lt_of_lt_of_le hx hle)
  trees_eq := h'.trees_eq

theorem Sound.rearranges_discardScratch {read : Document} {M : NodeId → Prop} {trees : List NodeId}
    (h : d.Sound) (hadds : d.Adds read ns) (hscratch : ∀ n ∈ ns, read.parent? n = some d.fresh)
    (hmoves : read.Moves (fun n => d.fresh ≤ n ∧ n < read.fresh) M d')
    (hM : ns ≠ [] → ∀ x, read.LiesIn d.fresh x → ¬ M x) (hd : d.Rearranges d' trees) :
    d.Rearranges (d'.discardScratch (read.scratch? ns)) trees := by
  have hvisible (m : NodeId) (hm : d.Visible m) :=
    h.visible_discardScratch hadds hscratch hmoves hM (hd.visible m hm)
  cases hns : ns with
  | nil => exact hd
  | cons n rest =>
    have hparent := hscratch n (hns ▸ List.mem_cons_self)
    have hread := hadds.wellFormed.isAllocated_parent hparent
    have hscratch? : read.scratch? (n :: rest) = some d.fresh := hparent
    rw [hns] at hvisible
    rw [hscratch?] at hvisible ⊢
    have hcontainer := hmoves.isAllocated hread
    have hold (x : NodeId) (hx : x < d.fresh) : ¬ d'.LiesIn x d.fresh := fun hlies =>
      Nat.not_lt_of_le ((hmoves.sealed hadds.split.sealed).of_liesIn hlies
        ⟨Nat.le_refl _, lt_fresh hread⟩).1 hx
    have hroots (r : NodeId) (hr : r ∈ d'.roots) : ¬ d'.LiesIn r d.fresh :=
      (h.not_liesIn_scratch hadds hread hmoves (hM (by simp [hns])) hr).1
    refine ⟨hvisible, hd.settled.trans (hmoves.wellFormed.settled_discard hcontainer hold), ?_⟩
    rw [← hd.trees_eq, discardScratch, hmoves.wellFormed.foremost_discard hcontainer hroots]
    refine List.map_congr_left fun r hr => ?_
    exact (hmoves.wellFormed.settled_discard hcontainer fun _ => id).top r
      (hroots r (mem_liveRoots.1 (mem_foremost.1 hr).1).1)

/-! Enclosing. -/

section Encloses
variable (h : d.Sound) (he : d.Encloses d' p wrapper inner inside)
include h he

theorem Sound.settled_of_encloses : d.Settled (· < d.fresh) d' where
  precedes _ _ _ _ := he.precedes h.toWellFormed
  top _ := he.top h.toWellFormed

variable (hroots : d'.roots = d.roots ++ extra)
include hroots

theorem Sound.mem_liveRoots_of_encloses (hr : r ∈ d.roots) :
    r ∈ d'.liveRoots ↔ r ∈ d.liveRoots ∧ r ∉ inside := by
  have hlt := lt_fresh (h.isAllocated_of_mem_roots r hr)
  have hr' : r ∈ d'.roots := by
    rw [hroots]
    exact List.mem_append_left _ hr
  rw [mem_liveRoots, mem_liveRoots, and_iff_right hr', and_iff_right hr]
  by_cases hmem : r ∈ inside
  · refine iff_of_false (fun htop => ?_) fun htop => htop.2 hmem
    rw [isTopLevel, he.parent?_of_mem hmem] at htop
    exact not_isFragment_of_isElement he.isElement_inner htop
  · rw [and_iff_left hmem, isTopLevel, isTopLevel, he.parent?_of_not_mem r hlt hmem]
    cases hp : d.parent? r with
    | none => rfl
    | some q =>
      have hq := lt_fresh (h.isAllocated_parent hp)
      rw [Option.all_some, Option.all_some, isFragment_congr (he.data? q hq)]

variable (hextra : ∀ r ∈ extra, r = wrapper) (hvisible : ∀ b ∈ inside, d.Visible b)
include hextra hvisible

/-- A root that is not enclosed stays foremost, because the wrapper lies in the root that held what it
holds, or is a root itself. -/
theorem Sound.mem_foremost_of_encloses (hshown : d.Visible p ∨ wrapper ∈ d'.liveRoots)
    (hr : r ∈ d.roots) :
    r ∈ d'.foremost ↔ r ∈ d.foremost ∧ r ∉ inside := by
  have hlt {r : NodeId} (hr : r ∈ d.roots) : r < d.fresh := lt_fresh (h.isAllocated_of_mem_roots r hr)
  have hlive {r : NodeId} (hr : r ∈ d.roots) := h.mem_liveRoots_of_encloses he hroots hr
  constructor
  · intro hfore
    obtain ⟨hlive', hfree⟩ := mem_foremost.1 hfore
    obtain ⟨hold, hmem⟩ := (hlive hr).1 hlive'
    refine ⟨mem_foremost.2 ⟨hold, fun o ho hro => ?_⟩, hmem⟩
    obtain ⟨o', ho', hoo'⟩ := h.exists_foremost ⟨o, ho, .inl rfl⟩
    have hro' : d.isWithin r o' := hoo'.elim (fun heq => heq ▸ hro) (isWithin_trans hro)
    obtain ⟨holive, hofree⟩ := mem_foremost.1 ho'
    by_cases hoin : o' ∈ inside
    · have hop := isWithin_of_parent? (he.parent?_parent h.toWellFormed hoin)
      rcases hshown with ⟨q, hq, hpq⟩ | hwlive
      · exact hofree q hq (hpq.elim (fun heq => heq ▸ hop) (isWithin_trans hop))
      · exact hfree wrapper hwlive
          (isWithin_trans (he.isWithin h.toWellFormed hro') (he.isWithin_wrapper hoin))
    · exact hfree o' ((hlive (mem_liveRoots.1 holive).1).2 ⟨holive, hoin⟩)
        (he.isWithin h.toWellFormed hro')
  · rintro ⟨hfore, hmem⟩
    obtain ⟨hold, hfree⟩ := mem_foremost.1 hfore
    refine mem_foremost.2 ⟨(hlive hr).2 ⟨hold, hmem⟩, fun o ho hro => ?_⟩
    have horoot := (mem_liveRoots.1 ho).1
    rw [hroots, List.mem_append] at horoot
    rcases horoot with horoot | hnew
    · exact hfree o ((hlive horoot).1 ho).1
        (he.isWithin_of_lt h.toWellFormed (hlt hr) (hlt horoot) hro)
    · obtain ⟨b, hb, hrb⟩ := he.exists_liesIn h.toWellFormed (hlt hr)
        (hextra o hnew ▸ he.le_wrapper) hro
      obtain ⟨q, hq, hbq⟩ := hvisible b hb
      have hrb : d.isWithin r b := hrb.resolve_left fun heq => hmem (heq ▸ hb)
      exact hfree q hq (hbq.elim (fun heq => heq ▸ hrb) (isWithin_trans hrb))

theorem Sound.wrapper_mem_foremost (hn : n ∈ inside) (hwrapper : wrapper ∈ d'.liveRoots) :
    wrapper ∈ d'.foremost ↔ n ∈ d.foremost := by
  have hparent := he.parent?_parent h.toWellFormed hn
  have hlt {r : NodeId} (hr : r ∈ d.roots) : r < d.fresh := lt_fresh (h.isAllocated_of_mem_roots r hr)
  have habove {o : NodeId} (ho : d'.isWithin wrapper o) : d'.LiesIn p o :=
    (isWithin_iff_of_parent? he.parent?_wrapper).1 ho
  constructor
  · intro hfore
    obtain ⟨o, ho, hno⟩ := h.exists_foremost (hvisible n hn)
    rcases hno with rfl | hno
    · exact ho
    have hpo : d.LiesIn p o := (isWithin_iff_of_parent? hparent).1 hno
    have holive := (mem_foremost.1 ho).1
    have hmem : o ∉ inside := fun hmem => h.not_isWithin_self o
      ((isWithin_iff_of_parent? (he.parent?_parent h.toWellFormed hmem)).2 hpo)
    have holive' := (h.mem_liveRoots_of_encloses he hroots (mem_liveRoots.1 holive).1).2
      ⟨holive, hmem⟩
    exact absurd ((isWithin_iff_of_parent? he.parent?_wrapper).2 (he.liesIn h.toWellFormed hpo))
      ((mem_foremost.1 hfore).2 o holive')
  · intro hfore
    refine mem_foremost.2 ⟨hwrapper, fun o ho hwo => ?_⟩
    have horoot := (mem_liveRoots.1 ho).1
    rw [hroots, List.mem_append] at horoot
    rcases horoot with horoot | hnew
    · have hpo : d.LiesIn p o := (habove hwo).imp_right
        (he.isWithin_of_lt h.toWellFormed he.parent_lt (hlt horoot))
      have holive := ((h.mem_liveRoots_of_encloses he hroots horoot).1 ho).1
      exact (mem_foremost.1 hfore).2 o holive ((isWithin_iff_of_parent? hparent).2 hpo)
    · exact he.wellFormed.not_isWithin_self wrapper (hextra o hnew ▸ hwo)

end Encloses

end DomQuery.Document
