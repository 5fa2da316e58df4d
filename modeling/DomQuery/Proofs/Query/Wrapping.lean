import DomQuery.Proofs.Query.Foremost

/-!
Wrapping and what a bare selector finds. A wrapper that takes the place of a visible node is visible
itself or becomes a root, so nothing is hidden.
-/
namespace DomQuery.Document
variable {d d' read : Document} {n m p first template wrapper : NodeId} {spot : Spot}
  {ns ms nodes : List NodeId}

/-! What is visible. -/

theorem Shows.tryPutAll (hnodes : ∀ n ∈ nodes, d.isAllocated n) (hp : d.Shows ns p) (hm : d.Shows ns m) :
    (d.tryPutAll (.lastIn p) nodes).Shows ns m := by
  induction nodes generalizing d with
  | nil => exact hm
  | cons n nodes ih =>
    obtain ⟨hn, hrest⟩ := List.forall_mem_cons.1 hnodes
    have hstep (x : NodeId) (hx : d.Shows ns x) : (d.tryPut (.lastIn p) n).Shows ns x := by
      cases haccepted : d.refusal? (.lastIn p) n with
      | none =>
        rw [tryPut_of_eq_none haccepted]
        exact (Shows.put hn rfl haccepted (.inl hp)).1 x hx
      | some e => rwa [tryPut_of_isSome (by rw [haccepted]; rfl)]
    exact ih (fun x hx => (extends_tryPut d _ n).isAllocated (hrest x hx)) (hstep p hp) (hstep m hm)

section One
variable (h : d.Sound) (hadds : d.Adds read [wrapper]) (hns : ∀ n ∈ ns, d.isAllocated n)
include h hadds hns

theorem Sound.shows_fill (hp : spot.parent? read = some p) (hold : d.isAllocated p) (hleaf : ¬ d.isLeaf p)
    (hhead : d.Shows ms p ∨ d.isFragment p = true ∧ wrapper ∈ ms) (hm : d.Shows ms m) :
    let put := read.put spot wrapper
    (put.tryPutAll (.lastIn (put.innermost wrapper)) ns).Shows ms m := by
  intro put
  obtain ⟨-, hwrapper⟩ := hadds.of_mem _ List.mem_cons_self
  have hmore := hadds.grows.toExtends
  have haccepted := hadds.refusal?_eq_none hp hold hleaf
  have hput := hadds.wellFormed.put hwrapper (has_of_parent? hp (hmore.isAllocated hold)) haccepted
  have hhead' : read.Shows ms p ∨ read.isFragment p = true ∧ wrapper ∈ ms :=
    hhead.imp (h.shows_of_grows hadds.grows)
      (And.imp_left ((isFragment_congr (hmore.data? p (lt_fresh hold))).trans ·))
  obtain ⟨hkept, hshown⟩ := Shows.put hwrapper hp haccepted hhead'
  have hinner := hshown.of_liesIn (hput.liesIn_innermost wrapper)
  exact hinner.tryPutAll (fun n hn => (extends_put read spot wrapper).isAllocated
    (hmore.isAllocated (hns n hn))) (hkept m (h.shows_of_grows hadds.grows hm))

theorem Sound.visible_wrapAt (hfirst : d.parent? first = some p) (hvisible : d.Visible first)
    (hm : d.Visible m) : (read.wrapAt wrapper first ns).Visible m := by
  obtain ⟨hold, hleaf, hspot, hwrap⟩ := hadds.wrapAt_of_parent? h.toWellFormed ns hfirst
  rw [hwrap, visible_adoptTopLevel]
  refine h.shows_fill hadds hns hspot hold hleaf ?_ (hm.shows [wrapper])
  exact ((hvisible.shows [wrapper]).parent hfirst).imp_right fun hp => ⟨hp, List.mem_cons_self⟩

end One

theorem Sound.visible_wrapChildren (h : d.Sound) (template : NodeId) (hn : d.isAllocated n)
    (hvisible : d.Visible n) (hm : d.Visible m) : (d.wrapChildren template n).Visible m := by
  have hadds := h.adds_copy template true
  by_cases hleaf : d.isLeaf n
  · rw [h.wrapChildren_of_isLeaf template hleaf]
    exact h.visible_of_grows hadds.discard.grows hm
  · rw [h.wrapChildren_of_not_isLeaf template hn hleaf, ← shows_nil]
    exact h.shows_fill hadds (fun c hc => h.isAllocated_child hc) rfl hn hleaf (.inl (hvisible.shows []))
      (hm.shows [])

/-! What is in order. -/

theorem Sound.encloses_wrapAt (h : d.Sound) (htemplate : d.isElement template)
    (hp : d.parent? n = some p) (hwrapper : wrapper = (d.copy template true).2)
    (hd' : d' = (d.copy template true).1.wrapAt wrapper n [n]) :
    ∃ inner, d.Encloses d' p wrapper inner [n] ∧
      d'.roots = d.roots ++ if d.isFragment p then [wrapper] else [] := by
  have hadds := h.adds_copy template true
  have helement := h.isElement_copy htemplate
  rw [← hwrapper] at hadds helement
  obtain ⟨hle, -⟩ := hadds.of_mem _ List.mem_cons_self
  obtain ⟨hold, hleaf, hspot, hwrap⟩ := hadds.wrapAt_of_parent? h.toWellFormed [n] hp
  have hne : wrapper ≠ n :=
    Ne.symm (Nat.ne_of_lt (Nat.lt_of_lt_of_le (lt_fresh (isAllocated_of_parent? hp)) hle))
  obtain ⟨before, after, haround⟩ := List.append_of_mem (h.parent?_eq_some_iff.1 hp)
  rw [← List.singleton_append, ← List.append_assoc] at haround
  have hnodup := h.nodup_children p
  rw [haround] at hnodup
  have he := hadds.encloses h.toWellFormed hspot hold hleaf helement haround
    (by rw [haround]; exact filter_insertInto_before hne hnodup)
  dsimp only at he
  have hmore := hadds.extends_fill (.before n) [n]
  rw [hd', hwrap]
  generalize ((d.copy template true).1.put (.before n) wrapper).innermost wrapper = inner at he hmore ⊢
  generalize ((d.copy template true).1.put (.before n) wrapper).tryPutAll (.lastIn inner) [n] = filled
    at he hmore ⊢
  have hfragment : filled.isFragment p = d.isFragment p :=
    isFragment_congr (hmore.data? p (lt_fresh hold))
  have hnew : ¬ filled.roots.contains wrapper := by
    rw [hmore.roots, List.contains_iff_mem]
    exact fun hr => Nat.not_lt_of_le hle (lt_fresh (h.isAllocated_of_mem_roots wrapper hr))
  refine ⟨inner, he.register _, ?_⟩
  rw [adoptTopLevel, register, ← hmore.roots]
  simp only [List.filter_cons, List.filter_nil, he.parent?_wrapper, Option.any_some, hfragment]
  split
  · rw [List.foldl_cons, List.foldl_nil, if_neg hnew]
  · rw [List.foldl_nil, List.append_nil]

/-- A foremost root that is wrapped gives up its place, and its wrapper comes last. -/
theorem Sound.foremost_wrapAt (h : d.Sound) (htemplate : d.isElement template)
    (hp : d.parent? n = some p) (hvisible : d.Visible n) (hwrapper : wrapper = (d.copy template true).2)
    (hd' : d' = (d.copy template true).1.wrapAt wrapper n [n]) :
    d.Settled (· < d.fresh) d' ∧ d'.top wrapper = d.top n ∧ d.fresh ≤ wrapper ∧
      d'.foremost = d.foremost.filter (· ∉ [n]) ++ if n ∈ d.foremost then [wrapper] else [] := by
  obtain ⟨inner, he, hroots⟩ := h.encloses_wrapAt htemplate hp hwrapper hd'
  have hn := List.mem_singleton_self n
  have hvisibles : ∀ b ∈ [n], d.Visible b := by
    intro b hb
    rwa [List.mem_singleton.1 hb]
  have hset := h.settled_of_encloses he
  have htop : d'.top wrapper = d.top n := by
    rw [← he.wellFormed.top_of_liesIn (.inr (he.isWithin_wrapper hn)),
      hset.top n (lt_fresh (isAllocated_of_parent? hp))]
  refine ⟨hset, htop, he.le_wrapper, ?_⟩
  by_cases hfragment : d.isFragment p
  · rw [if_pos hfragment] at hroots
    have hlive : wrapper ∈ d'.liveRoots := by
      rw [mem_liveRoots, hroots, isTopLevel, he.parent?_wrapper, Option.all_some,
        isFragment_congr (he.data? p he.parent_lt)]
      exact ⟨List.mem_append_right _ List.mem_cons_self, hfragment⟩
    have hextra : ∀ r ∈ [wrapper], r = wrapper := fun r => List.mem_singleton.1
    rw [foremost_of_mem_iff (· ∉ [n]) hroots fun r hr => by
      rw [decide_eq_true_iff]
      exact h.mem_foremost_of_encloses he hroots hextra hvisibles (.inr hlive) hr]
    congr 1
    rw [List.filter_cons, List.filter_nil]
    exact if_congr (by
      rw [decide_eq_true_iff]
      exact h.wrapper_mem_foremost he hroots hextra hvisibles hn hlive) rfl rfl
  · rw [if_neg hfragment] at hroots
    have hshown : d.Visible p :=
      shows_nil.1 (((hvisible.shows []).parent hp).resolve_right hfragment)
    have hnot : n ∉ d.foremost := fun hfore => hfragment (by
      have htop := (mem_liveRoots.1 (mem_foremost.1 hfore).1).2
      rwa [isTopLevel, hp] at htop)
    rw [foremost_of_mem_iff (· ∉ [n]) hroots fun r hr => by
      rw [decide_eq_true_iff]
      exact h.mem_foremost_of_encloses he hroots (List.forall_mem_nil _) hvisibles (.inl hshown) hr, if_neg hnot]
    rfl

/-! All nodes. -/

/-- The foremost roots once nodes have been wrapped one after the other: those that are wrapped come
behind the others, in the order of the nodes. -/
def regrouped (d : Document) (ns : List NodeId) : List NodeId :=
  d.foremost.filter (· ∉ ns) ++ (distinct ns).filter (· ∈ d.foremost)

theorem regrouped_cons (hset : d.Settled (· < d.fresh) d')
    (htop : d'.top wrapper = d.top n) (hle : d.fresh ≤ wrapper) (hns : ∀ m ∈ ns, m < d.fresh)
    (hroots : ∀ r ∈ d.roots, r < d.fresh)
    (hfore : d'.foremost = d.foremost.filter (· ∉ [n]) ++ if n ∈ d.foremost then [wrapper] else []) :
    (d'.regrouped ns).map d'.top = (d.regrouped (n :: ns)).map d.top := by
  have hnew : wrapper ∉ ns := fun hmem => Nat.not_lt_of_le hle (hns wrapper hmem)
  have hkept : d'.foremost.filter (· ∉ ns) =
      d.foremost.filter (· ∉ n :: ns) ++ if n ∈ d.foremost then [wrapper] else [] := by
    rw [hfore, List.filter_append, List.filter_filter]
    congr 1
    · exact List.filter_congr fun r _ => by simp [Bool.and_comm]
    · split <;> simp [hnew]
  have hmoved : (distinct ns).filter (· ∈ d'.foremost) =
      (distinctFrom [n] ns).filter (· ∈ d.foremost) := by
    rw [distinctFrom_cons, List.filter_filter]
    refine List.filter_congr fun m hm => ?_
    have hne : m ≠ wrapper := fun heq => hnew (heq ▸ mem_distinct.1 hm)
    rw [hfore]
    split <;> simp [hne]
  have hfirst : (distinct (n :: ns)).filter (· ∈ d.foremost) =
      (if n ∈ d.foremost then [n] else []) ++ (distinctFrom [n] ns).filter (· ∈ d.foremost) := by
    rw [distinct, distinctFrom, if_neg List.not_mem_nil, List.filter_cons]
    split <;> simp_all
  have hsame (xs : List NodeId) (hxs : ∀ x ∈ xs, x ∈ d.foremost) : xs.map d'.top = xs.map d.top := by
    refine List.map_congr_left fun x hx => hset.top x (hroots x ?_)
    exact (mem_liveRoots.1 (mem_foremost.1 (hxs x hx)).1).1
  have hone : (if n ∈ d.foremost then [wrapper] else []).map d'.top =
      (if n ∈ d.foremost then [n] else []).map d.top := by
    split
    · rw [List.map_singleton, List.map_singleton, htop]
    · rfl
  have hleft := hsame (d.foremost.filter (· ∉ n :: ns)) fun x => List.mem_of_mem_filter
  have hright := hsame ((distinctFrom [n] ns).filter (· ∈ d.foremost)) fun x hx => by
    simpa using (List.mem_filter.1 hx).2
  rw [regrouped, regrouped, hkept, hmoved, hfirst]
  simp only [List.map_append, List.append_assoc, hleft, hone, hright]

theorem Sound.regrouped_of_grows (h : d.Sound) (hgrows : d.Grows read) (hread : read.WellFormed)
    (ns : List NodeId) : (read.regrouped ns).map read.top = (d.regrouped ns).map d.top := by
  have hsame : read.regrouped ns = d.regrouped ns := by
    rw [regrouped, regrouped, h.foremost_of_grows hgrows]
  rw [hsame]
  refine List.map_congr_left fun r hr => (h.settled_of_grows hgrows hread).top r ?_
  refine h.lt_of_mem_foremost ?_
  rcases List.mem_append.1 hr with hr | hr
  · exact List.mem_of_mem_filter hr
  · simpa using (List.mem_filter.1 hr).2

section All
variable (h : d.Sound)
include h

/-- Each wrapping hides nothing and moves at most one tree behind the others. -/
theorem Sound.rearranges_wrapEach (htemplate : d.isElement template)
    (hns : ∀ n ∈ ns, (d.parent? n).isSome ∧ d.Visible n) :
    d.Rearranges (d.wrapEach template ns) ((d.regrouped ns).map d.top) := by
  induction ns generalizing d with
  | nil =>
    refine ⟨fun _ => id, .refl _ d, ?_⟩
    simp [Document.wrapEach, regrouped, distinct, distinctFrom]
  | cons n ns ih =>
    obtain ⟨⟨hsome, hvisible⟩, hrest⟩ := List.forall_mem_cons.1 hns
    obtain ⟨p, hp⟩ := Option.isSome_iff_exists.1 hsome
    have hallocated (m : NodeId) (hm : (d.parent? m).isSome) : d.isAllocated m := by
      obtain ⟨q, hq⟩ := Option.isSome_iff_exists.1 hm
      exact isAllocated_of_parent? hq
    have hn := hallocated n hsome
    have hone : ∀ m ∈ [n], d.isAllocated m := by
      intro m hm
      rwa [List.mem_singleton.1 hm]
    have hadds := h.adds_copy template true
    have hmoves : d.Moves (fun _ => False) (¬ (fun _ => False) ·)
        ((d.copy template true).1.wrapAt (d.copy template true).2 n [n]) :=
      hadds.moves_wrapAt h.toWellFormed (fun _ => False.elim) (fun _ _ _ => Iff.rfl) ⟨hn, id⟩
        fun m hm => ⟨hone m hm, id⟩
    have hkept (m : NodeId) := h.visible_wrapAt (m := m) hadds hone hp hvisible
    obtain ⟨hset, htop, hle, hfore⟩ := h.foremost_wrapAt htemplate hp hvisible rfl rfl
    have hsound := (h.evolves_of_moves (E := fun _ => False) hmoves).sound
    have hregrouped := regrouped_cons hset htop hle
      (fun m hm => lt_fresh (hallocated m (hrest m hm).1))
      (fun r hr => lt_fresh (h.isAllocated_of_mem_roots r hr)) hfore
    have hstep : d.wrapEach template (n :: ns) =
        ((d.copy template true).1.wrapAt (d.copy template true).2 n [n]).wrapEach template ns := rfl
    rw [hstep]
    generalize (d.copy template true).1.wrapAt (d.copy template true).2 n [n] = wrapped at *
    have htemplate' : wrapped.isElement template := (isElement_congr
      (hmoves.data? template (lt_fresh (isAllocated_of_isElement htemplate)))).trans htemplate
    have hrest := ih hsound htemplate' fun m hm => by
      refine ⟨?_, hkept m (hrest m hm).2⟩
      rcases hmoves.parent? m with hsame | ⟨-, q, hq, -⟩
      · rw [hsame]
        exact (hrest m hm).1
      · rw [hq]
        rfl
    rw [← hregrouped]
    exact (Rearranges.mk hkept hset rfl).trans hrest hmoves.fresh_le

theorem Sound.visible_wrapTogether (hallocated : ∀ n ∈ ns, d.isAllocated n)
    (hfirst : ∀ n ∈ ns.head?, (d.parent? n).isSome ∧ d.Visible n) (hm : d.Visible m) :
    (d.wrapTogether template ns).Visible m := by
  cases ns with
  | nil => exact hm
  | cons first rest =>
    obtain ⟨hsome, hvisible⟩ := hfirst first rfl
    obtain ⟨p, hp⟩ := Option.isSome_iff_exists.1 hsome
    exact h.visible_wrapAt (h.adds_copy template true) hallocated hp hvisible hm

theorem Sound.wrapChildren_order (htemplate : d.isElement template) (hn : d.isAllocated n)
    (hvisible : d.Visible n) : d.Settled (· < d.fresh) (d.wrapChildren template n) ∧
      (d.wrapChildren template n).foremost = d.foremost := by
  have hadds := h.adds_copy template true
  by_cases hleaf : d.isLeaf n
  · rw [h.wrapChildren_of_isLeaf template hleaf]
    exact ⟨h.settled_of_grows hadds.discard.grows hadds.discard.wellFormed,
      h.foremost_of_grows hadds.discard.grows⟩
  · obtain ⟨hle, -⟩ := hadds.of_mem _ List.mem_cons_self
    have hwrap := h.wrapChildren_of_not_isLeaf template hn hleaf
    have hmore := hadds.extends_fill (.lastIn n) (d.children n)
    have hnot : (d.copy template true).2 ∉ d.children n := fun hmem =>
      Nat.not_lt_of_le hle (lt_fresh (h.isAllocated_child hmem))
    have haround : d.children n = [] ++ d.children n ++ [] := by simp
    have hspot : ((Spot.lastIn n).insertInto (d.copy template true).2 (d.children n)).filter
        (· ∉ d.children n) = [] ++ (d.copy template true).2 :: [] := by
      simp [Spot.insertInto, hnot]
    have he := hadds.encloses h.toWellFormed rfl hn hleaf (h.isElement_copy htemplate) haround hspot
    dsimp only at hwrap he
    rw [← hwrap] at he hmore
    have hroots : (d.wrapChildren template n).roots = d.roots ++ [] := by
      rw [hmore.roots, List.append_nil]
    -- the children lie in a root that is no child, so none of them is foremost
    have hbelow (c : NodeId) (hc : c ∈ d.children n) : d.Visible c ∧ c ∉ d.foremost := by
      have hcn := h.isWithin_of_mem_children hc
      obtain ⟨r, hr, hnr⟩ := hvisible
      have hcr : d.isWithin c r := hnr.elim (fun heq => heq ▸ hcn) (isWithin_trans hcn)
      exact ⟨⟨r, hr, .inr hcr⟩, fun hfore => (mem_foremost.1 hfore).2 r hr hcr⟩
    refine ⟨h.settled_of_encloses he, ?_⟩
    rw [foremost_of_mem_iff (· ∉ d.children n) hroots fun r hr => by
      rw [decide_eq_true_iff]
      exact h.mem_foremost_of_encloses he hroots (List.forall_mem_nil _) (fun c hc => (hbelow c hc).1) (.inl hvisible) hr]
    rw [List.filter_nil, List.append_nil, List.filter_eq_self]
    exact fun r hr => decide_eq_true fun hc => (hbelow r hc).2 hr

theorem Sound.rearranges_wrapInside (htemplate : d.isElement template)
    (hns : ∀ n ∈ ns, d.isAllocated n ∧ d.Visible n) :
    d.Rearranges (d.wrapInside template ns) (d.foremost.map d.top) := by
  induction ns generalizing d with
  | nil => exact ⟨fun _ => id, .refl _ d, rfl⟩
  | cons n ns ih =>
    obtain ⟨⟨hn, hvisible⟩, hrest⟩ := List.forall_mem_cons.1 hns
    have hmoves := h.toWellFormed.wrapChildren (S := fun _ => False) (fun _ => False.elim)
      (fun _ _ _ => Iff.rfl) template ⟨hn, id⟩
    have hkept (m : NodeId) := h.visible_wrapChildren (m := m) template hn hvisible
    obtain ⟨hset, hfore⟩ := h.wrapChildren_order htemplate hn hvisible
    have hsound := (h.evolves_of_moves (E := fun _ => False) hmoves).sound
    have hstep : d.wrapInside template (n :: ns) = (d.wrapChildren template n).wrapInside template ns := rfl
    have htemplate' : (d.wrapChildren template n).isElement template := (isElement_congr
      (hmoves.data? template (lt_fresh (isAllocated_of_isElement htemplate)))).trans htemplate
    have hrest := ih hsound htemplate' fun m hm =>
      ⟨hmoves.isAllocated (hrest m hm).1, hkept m (hrest m hm).2⟩
    rw [hstep, ← hset.trees_eq h hfore]
    exact (Rearranges.mk hkept hset rfl).trans hrest hmoves.fresh_le

end All

end DomQuery.Document
