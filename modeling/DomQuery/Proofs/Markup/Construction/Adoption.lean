import DomQuery.Proofs.Markup.Construction.Keeping

/-!
Formatting elements. They are closed and opened again above the innermost structural element only, so the
structure stays as it is.
-/
namespace DomQuery.Markup.Construction
open OpenElement Setting
variable {s s' : State} {t : Setting} {e : OpenElement} {es outer : List OpenElement} {name : String}
  {known : List (Namespace × String)} {tag : Tag} {entry : Formatting} {handle : Handle}

theorem not_structural_of_formatting (h : e.name ∈ formattingTags) : ¬ structural e := fun hs => by
  have hapart : ∀ n ∈ formattingTags, n ∉ structuralNames := by decide
  exact hapart e.name h (isHtmlIn_iff.1 hs).2

theorem not_placed_of_formatting (h : name ∈ formattingTags) : name ∉ placedNames := by
  have hapart : ∀ n ∈ formattingTags, n ∉ placedNames := by decide
  exact hapart name h

namespace Setting

theorem Holds.setOpened (hs : t.Holds s) (hn : Nested es) (ha : anchor? es = t.anchor)
    (hknows : ∀ e ∈ es, s.Knows e) : t.Holds { s with opened := es } :=
  { hs with
    sane := { hs.sane with nested := hn, opened := hknows }
    anchor := ha }

/-! Opening again. -/

def KnownEntry (s : State) : Formatting → Prop
  | .marker => True
  | .element handle tag => s.labels[handle]? = some (.html, tag.name) ∧ tag.name ∈ formattingTags

theorem KnownEntry.mono (h : KnownEntry s entry) (hmore : s.labels <+: s'.labels) : KnownEntry s' entry := by
  cases entry with
  | marker => trivial
  | element handle tag => exact h.imp_left (getElem?_mono hmore)

theorem Holds.mapM {f : Formatting → Build Formatting} {entries : List Formatting}
    (hf : ∀ entry ∈ entries, ∀ t s, Holds t s → t.Holds (f entry s).2 ∧ KnownEntry (f entry s).2 (f entry s).1)
    (hs : t.Holds s) : t.Holds (entries.mapM f s).2 ∧
      ∀ entry ∈ (entries.mapM f s).1, KnownEntry (entries.mapM f s).2 entry := by
  induction entries generalizing t s with
  | nil => exact ⟨hs, nofun⟩
  | cons entry rest ih =>
    obtain ⟨hentry, hrest⟩ := List.forall_mem_cons.1 hf
    obtain ⟨hnext, hknown⟩ := hentry t s hs
    obtain ⟨hfinal, hall⟩ := ih hrest hnext.now
    rw [List.mapM_cons]
    exact ⟨hfinal.weaken hnext.known, List.forall_mem_cons.2 ⟨hknown.mono hfinal.known, hall⟩⟩

theorem Holds.insertFormattingElement (hs : t.Holds s) (htag : tag.name ∈ formattingTags) :
    t.Holds (Construction.insertIn .html tag s).2 ∧ KnownEntry (Construction.insertIn .html tag s).2
      (.element (Construction.insertIn .html tag s).1.handle tag) := by
  obtain ⟨hnext, hknows, heq⟩ := hs.insertIn fun (_ : Namespace.html = .html) => not_placed_of_formatting htag
  rw [State.Knows, heq] at hknows
  rw [heq]
  exact ⟨hnext, hknows, htag⟩

theorem keeps_reconstructFormatting : t.Keeps reconstructFormatting := by
  intro s hs
  let reopen : Formatting → Build Formatting := fun
    | .marker => return .marker
    | .element _ tag => return .element (← insertIn .html tag).handle tag
  have hreopen (entry) (hentry : entry ∈ (s.formatting.takeWhile (!·.isOpenIn s.opened)).reverse) t' s'
      (hs' : Holds t' s') : t'.Holds (reopen entry s').2 ∧
        KnownEntry (reopen entry s').2 (reopen entry s').1 := by
    cases entry with
    | marker => exact ⟨hs', trivial⟩
    | element handle tag =>
      have hmem := (List.takeWhile_subset _) (List.mem_reverse.1 hentry)
      exact hs'.insertFormattingElement (hs.sane.formatting handle tag hmem).2
  obtain ⟨hnext, hknown⟩ := Holds.mapM hreopen hs
  refine hnext.setFormatting fun handle tag hmem => ?_
  rcases List.mem_append.1 hmem with hnew | hold
  · exact .inr (hknown _ (List.mem_reverse.1 hnew))
  · exact .inl (List.mem_of_mem_drop hold)

theorem removeLastLike_subset (tag : Tag) (entries : List Formatting) :
    Formatting.removeLastLike tag entries ⊆ entries := fun entry h => by
  rw [Formatting.removeLastLike, List.mem_reverse] at h
  rw [← List.mem_reverse]
  rcases List.mem_append.1 h with hbefore | hafter
  · exact List.takeWhile_subset _ hbefore
  · exact List.dropWhile_subset _ (List.mem_of_mem_tail hafter)

theorem keeps_insertFormatting (htag : tag.name ∈ formattingTags) : t.Keeps (insertFormatting tag) := by
  have hinsert : t.Keeps (do
      let e ← insertIn .html tag
      Construction.setFormatting (.element e.handle tag :: ·)) := fun s hs => by
    obtain ⟨hnext, hknown⟩ := hs.insertFormattingElement htag
    refine hnext.setFormatting fun handle other hmem => ?_
    rcases List.mem_cons.1 hmem with heq | hold
    · have hentry : KnownEntry _ (.element handle other) := heq ▸ hknown
      exact .inr hentry
    · exact .inl hold
  intro s hs
  change t.Holds ((if 3 ≤ _ then _ else _ : Build Unit) s).2
  split
  · refine hinsert _ (hs.setFormatting fun handle other hmem => .inl ?_)
    rcases List.mem_append.1 hmem with hkept | hold
    · exact List.takeWhile_subset _ (removeLastLike_subset _ _ hkept)
    · exact List.mem_of_mem_drop hold
  · exact hinsert s hs

/-! Closing. -/

/-- No search for an element that is none of the structure goes beyond a structural element. -/
theorem keeps_closeNearest (h : ∀ a ∈ t.anchor, structural a → ¬ a.isHtml name) : t.Keeps (closeNearest name) := by
  intro s hs
  let passes (e : OpenElement) : Bool := !e.isHtml name && !special e
  have hpasses (e : OpenElement) (he : passes e) : ¬ e.isHtml name ∧ ¬ structural e := by
    obtain ⟨hname, hplain⟩ := Bool.and_eq_true_iff.1 he
    refine ⟨by simpa using hname, fun hs => ?_⟩
    have hspecial : special e := isHtmlIn_mono (by decide) hs
    simp [hspecial] at hplain
  rw [closeNearest, bind_run, opened_run]
  dsimp only
  have hopened := List.takeWhile_append_dropWhile (p := passes) (l := s.opened)
  cases hfound : s.opened.dropWhile passes with
  | nil => exact hs
  | cons e rest =>
    rw [hfound] at hopened
    change t.Holds ((if e.isHtml name then Construction.setOpened rest else pure () : Build Unit) s).2
    split
    · rename_i hname
      have hbefore (x) (hx : x ∈ s.opened.takeWhile passes) :=
        hpasses x (List.all_eq_true.1 List.all_takeWhile x hx)
      have hanchor := anchor?_append (e :: rest) fun x hx => (hbefore x hx).2
      rw [hopened, hs.anchor] at hanchor
      have hplain : ¬ structural e := fun he =>
        h e (hanchor.trans (anchor?_cons_of_structural he)) he hname
      have hfinds : Finds (·.isHtml name) s.opened rest := ⟨_, e, hopened.symm, hname, hplain, hbefore⟩
      exact hs.close hfinds.suffix hfinds.anchor?_eq
    · exact hs

/-! Splitting. -/

theorem mem_of_tagFor? {entries : List Formatting} (h : Formatting.tagFor? handle entries = some tag) :
    .element handle tag ∈ entries := by
  obtain ⟨entry, hmem, hentry⟩ := List.exists_of_findSome?_eq_some h
  split at hentry
  · cases hentry
  · split at hentry
    · rename_i heq
      rw [← eq_of_beq heq, ← Option.some.inj hentry]
      exact hmem
    · cases hentry

/-- An element that has taken the place of a formatting element. -/
structure IsCopy (s : State) (e : OpenElement) : Prop where
  knows : s.Knows e
  ns : e.ns = .html
  name : e.name ∈ formattingTags

theorem IsCopy.mono (h : IsCopy s e) (hmore : s.labels <+: s'.labels) : IsCopy s' e :=
  { h with knows := h.knows.mono hmore }

theorem Holds.replaceFormatting (hs : t.Holds s) (he : IsCopy s e) (hname : e.name = tag.name)
    {f : Formatting → List Formatting}
    (hf : ∀ entry, ∀ x ∈ f entry, x = entry ∨ x = .element e.handle tag) :
    t.Holds { s with formatting := s.formatting.flatMap f } := by
  refine hs.setFormatting fun handle other hmem => ?_
  obtain ⟨entry, hentry, hx⟩ := List.mem_flatMap.1 hmem
  rcases hf entry _ hx with rfl | heq
  · exact .inl hentry
  · obtain ⟨rfl, rfl⟩ := Formatting.element.inj heq
    exact .inr ⟨he.ns ▸ hname ▸ he.knows, hname ▸ he.name⟩

theorem Holds.mapFormatting (hs : t.Holds s) (he : IsCopy s e) (hname : e.name = tag.name) (old : Handle) :
    t.Holds (Construction.setFormatting (·.map fun x => if x.isFor old then .element e.handle tag else x) s).2 := by
  have hreplaced := hs.replaceFormatting he hname
    (f := fun x => [if x.isFor old then .element e.handle tag else x]) fun entry x hx => by
      rw [List.mem_singleton] at hx
      split at hx
      · exact .inr hx
      · exact .inl hx
  rwa [← List.map_eq_flatMap] at hreplaced

theorem Holds.addOver (hs : t.Holds s) (he : IsCopy s e) (hname : e.name = tag.name) (old : Handle) :
    t.Holds (Construction.setFormatting (Formatting.addOver old (.element e.handle tag)) s).2 := by
  refine hs.replaceFormatting he hname fun entry x hx => ?_
  split at hx
  · rcases List.mem_cons.1 hx with heq | hrest
    · exact .inr heq
    · exact .inl (List.mem_singleton.1 hrest)
  · exact .inl (List.mem_singleton.1 hx)

theorem Holds.newCopy (hs : t.Holds s) (htag : tag.name ∈ formattingTags) :
    t.Holds (Construction.newElement .html tag s).2 ∧
      IsCopy (Construction.newElement .html tag s).2 (Construction.newElement .html tag s).1 :=
  let ⟨hmade, hknows⟩ := hs.newElement .html tag
  ⟨hmade, hknows, rfl, htag⟩

/-- What stays open while a formatting element is split are copies. -/
structure Adopted (t : Setting) (result : Adoption × State) : Prop where
  holds : t.Holds result.2
  kept : ∀ e ∈ result.1.kept, IsCopy result.2 e

theorem Adopted.through {a : Adoption} (h : Adopted t (a, s)) (count : Nat) (node : OpenElement) :
    Adopted t (adoptThrough count a node s) := by
  have hget : (get : Build State) s = (s, s) := rfl
  rw [adoptThrough, bind_run, hget]
  dsimp only
  cases hfound : Formatting.tagFor? node.handle s.formatting with
  | none => exact h
  | some tag =>
    have htag := (h.holds.sane.formatting _ _ (mem_of_tagFor? hfound)).2
    dsimp only
    split
    · exact ⟨keeps_removeFormatting node.handle s h.holds, fun e he => (h.kept e he).mono List.prefix_rfl⟩
    · obtain ⟨hmade, hcopy⟩ := h.holds.now.newCopy htag
      have hset := hmade.mapFormatting hcopy rfl node.handle
      have hdetached := hset.now.edit (.detach a.last) rfl trivial
      have hdone := hdetached.edit
        (.insert (.inside (some (newElement .html tag s).1.handle)) (.node a.last)) rfl trivial
      have hgrown : s.labels <+: _ := hmade.known.trans hdone.known
      refine ⟨{ hdone with known := h.holds.known.trans hgrown },
        List.forall_mem_append.2 ⟨fun e he => ?_, ?_⟩⟩
      · exact (h.kept e he).mono hgrown
      · exact List.forall_mem_singleton.2 (hcopy.mono hdone.known)

theorem Adopted.all {a : Adoption} (h : Adopted t (a, s)) (count : Nat) (nodes : List OpenElement) :
    Adopted t (adoptAll a count nodes s) := by
  induction nodes generalizing a count s with
  | nil => exact h
  | cons node rest ih => exact ih (h.through count node) (count + 1)

/-- An element that may stand above others of which none is structural. -/
structure Rises (s : State) (outer : List OpenElement) (e : OpenElement) : Prop where
  knows : s.Knows e
  plain : ¬ structural e
  sits : Sits e outer

theorem IsCopy.rises (h : IsCopy s e) (outer : List OpenElement) : Rises s outer e where
  knows := h.knows
  plain := not_structural_of_formatting h.name
  sits := sits_of_not_placed (fun hin => not_placed_of_formatting h.name (isHtmlIn_iff.1 hin).2) outer

theorem Rises.unbound (h : Rises s outer e) : Unbound s.labels e.handle :=
  have hparts : ∀ n ∈ tableParts, n ∈ structuralNames := by decide
  ⟨_, h.knows, fun hns hname => h.plain (isHtmlIn_iff.2 ⟨hns, hparts e.name hname⟩)⟩

/-- A part of the stack on which others may be opened. -/
structure Supports (t : Setting) (s : State) (outer : List OpenElement) : Prop where
  nested : Nested outer
  anchor : anchor? outer = t.anchor
  knows : ∀ e ∈ outer, s.Knows e

theorem Holds.openAbove (hs : t.Holds s) (houter : Supports t s outer) (habove : ∀ e ∈ es, Rises s outer e) :
    t.Holds { s with opened := es ++ outer } := by
  have hplain (e) (he : e ∈ es) : ¬ structural e := (habove e he).plain
  refine hs.setOpened ((nested_append hplain).2 ⟨fun e he => (habove e he).sits, houter.nested⟩)
    ((anchor?_append outer hplain).trans houter.anchor) (List.forall_mem_append.2 ⟨?_, houter.knows⟩)
  exact fun e he => (habove e he).knows

variable (formatting : OpenElement) {block copy : OpenElement} {inside between : List OpenElement} {a : Adoption}

theorem keeps_fillBlock (hcopy : ∀ s, t.Holds s → IsCopy s copy) (hname : copy.name = tag.name)
    (houter : ∀ s, t.Holds s → Supports t s outer)
    (habove : ∀ s, t.Holds s → ∀ e ∈ inside ++ copy :: block :: a.kept, Rises s outer e) :
    t.Keeps (do
      edit (.moveChildren block.handle copy.handle)
      edit (.insert (.inside (some block.handle)) (.node copy.handle))
      let entry := Formatting.element copy.handle tag
      match a.below with
      | none => setFormatting (·.map fun e => if e.isFor formatting.handle then entry else e)
      | some previous =>
        setFormatting (Formatting.addOver previous entry)
        removeFormatting formatting.handle
      setOpened (inside ++ copy :: block :: a.kept ++ outer)) := by
  have hopened : t.Keeps (setOpened (inside ++ copy :: block :: a.kept ++ outer)) := fun s hs =>
    hs.openAbove (houter s hs) (habove s hs)
  refine Yields.bind (keeps_edit rfl fun s hs => ?_) fun _ => Yields.bind (keeps_insertNode _ _) ?_
  · exact ⟨(habove s hs block (by simp)).unbound, ((hcopy s hs).rises outer).unbound⟩
  · intro _
    dsimp only
    split
    · exact Yields.bind (fun s hs => hs.mapFormatting (hcopy s hs) hname formatting.handle) fun _ => hopened
    · exact Yields.bind (fun s hs => hs.addOver (hcopy s hs) hname _) fun _ =>
        Yields.bind (keeps_removeFormatting _) fun _ => hopened

theorem keeps_joinBlock (htag : tag.name ∈ formattingTags) (houter : ∀ s, t.Holds s → Supports t s outer)
    (habove : ∀ s, t.Holds s → ∀ e ∈ inside ++ block :: a.kept, Rises s outer e) (place : InsertionPoint) :
    t.Keeps (do
      edit (.insert place (.node a.last))
      let copy ← newElement .html tag
      edit (.moveChildren block.handle copy.handle)
      edit (.insert (.inside (some block.handle)) (.node copy.handle))
      let entry := Formatting.element copy.handle tag
      match a.below with
      | none => setFormatting (·.map fun e => if e.isFor formatting.handle then entry else e)
      | some previous =>
        setFormatting (Formatting.addOver previous entry)
        removeFormatting formatting.handle
      setOpened (inside ++ copy :: block :: a.kept ++ outer)) := by
  refine Yields.bind (keeps_insertNode place a.last) fun _ s hs => ?_
  obtain ⟨hmade, hcopy⟩ := hs.newCopy htag
  have hback (s') (hs' : Holds { t with known := (newElement .html tag s).2.labels } s') : t.Holds s' :=
    hs'.weaken hmade.known
  refine hback _ (keeps_fillBlock formatting (fun s' hs' => hcopy.mono hs'.known) rfl (fun s' hs' => ?_)
    (fun s' hs' e he => ?_) _ hmade.now)
  · exact { houter s' (hback s' hs') with }
  · have hrises := habove s' (hback s' hs')
    rcases List.mem_append.1 he with hin | hrest
    · exact hrises e (List.mem_append_left _ hin)
    · rcases List.mem_cons.1 hrest with rfl | hrest
      · exact (hcopy.mono hs'.known).rises outer
      · exact hrises e (List.mem_append_right _ hrest)

/-- The elements between a formatting element and the furthest block in it are replaced by copies, and all
that is open stays above the same anchor. -/
theorem keeps_splitAround (htag : tag.name ∈ formattingTags) (houter : ∀ s, t.Holds s → Supports t s outer)
    (hinside : ∀ s, t.Holds s → ∀ e ∈ inside, Rises s outer e)
    (hblock : ∀ s, t.Holds s → Rises s outer block) :
    t.Keeps (splitAround formatting tag block inside between outer) := by
  have hall : t.Yields (adoptAll { last := block.handle } 1 between) fun a s => Adopted t (a, s) :=
    fun s hs => Adopted.all ⟨hs, fun e he => absurd he List.not_mem_nil⟩ 1 between
  refine hall.bind_now _ (fun a s h => h.holds) fun a s h => Keeps.weaken ?_ h.holds.known
  have hback (s') (hs' : Holds { t with known := s.labels } s') : t.Holds s' := hs'.weaken h.holds.known
  have habove (s') (hs' : Holds { t with known := s.labels } s') (e) (he : e ∈ inside ++ block :: a.kept) :
      Rises s' outer e := by
    rcases List.mem_append.1 he with hin | hrest
    · exact hinside s' (hback s' hs') e hin
    · rcases List.mem_cons.1 hrest with rfl | hkept
      · exact hblock s' (hback s' hs')
      · exact ((h.kept e hkept).mono hs'.known).rises outer
  have hjoin := keeps_joinBlock formatting htag (fun s' hs' => { houter s' (hback s' hs') with }) habove
  refine Yields.bind (keeps_detach a.last) fun _ => ?_
  dsimp only
  split
  · exact Yields.bind (Keeps.of_reads fun s => by rw [placeIn_run]) hjoin
  · exact Yields.bind (Keeps.pure (InsertionPoint.inside none)) hjoin

theorem Yields.recent {β : Type} {f : List Formatting → Build β} {post : β → State → Prop}
    (hf : ∀ s entries, t.Holds s → (∀ entry ∈ entries, KnownEntry s entry) →
      Yields { t with known := s.labels } (f entries) post) :
    t.Yields (recentFormatting >>= f) post := fun s hs => by
  refine hf s _ hs (fun entry hentry => ?_) s hs.now
  cases entry with
  | marker => trivial
  | element handle tag => exact hs.sane.formatting handle tag (List.takeWhile_subset _ hentry)

theorem Supports.keeps_setOpened (h : ∀ s, t.Holds s → Supports t s outer) : t.Keeps (setOpened outer) :=
  fun s hs => hs.setOpened (h s hs).nested (h s hs).anchor (h s hs).knows

theorem keeps_adoptRound (hname : name ∈ formattingTags) : t.Keeps (adoptRound name) := by
  refine Yields.get fun s hs => Keeps.weaken (Yields.recent fun s' entries hs' hentries => ?_) hs.known
  refine Keeps.weaken ?_ hs'.known
  dsimp only
  split
  · refine Yields.bind (keeps_closeNearest fun a _ hs ha => ?_) fun _ => Keeps.pure _
    exact not_structural_of_formatting ((isHtml_iff.1 ha).2 ▸ hname) hs
  rename_i handle tag hfound
  obtain ⟨htag, hknown⟩ : tag.name ∈ formattingTags ∧ s'.labels[handle]? = some (.html, tag.name) := by
    obtain ⟨entry, hmem, hentry⟩ := List.exists_of_findSome?_eq_some hfound
    split at hentry
    · cases hentry
    · split at hentry
      · obtain ⟨rfl, rfl⟩ := Option.some.inj hentry
        exact (hentries _ hmem).symm
      · cases hentry
  split
  · exact Yields.bind (keeps_removeFormatting handle) fun _ => Keeps.pure _
  split
  · exact Keeps.pure _
  rename_i formatting _ hscope
  have hplain (e) (he : e ∈ s.opened) (heq : e.handle == handle) : ¬ structural e := by
    have hlabel : s'.labels[e.handle]? = some (e.ns, e.name) := (hs.sane.opened e he).mono hs'.known
    rw [eq_of_beq heq, hknown] at hlabel
    exact not_structural_of_formatting ((Prod.mk.inj (Option.some.inj hlabel)).2 ▸ htag)
  obtain ⟨outer, houter⟩ := hs.sane.nested.finds hplain (fun _ => id) (by simpa using hscope)
  have hsupports (s'') (hs'' : Holds { t with known := s'.labels } s'') :
      Supports { t with known := s'.labels } s'' outer :=
    { nested := hs.sane.nested.suffix houter.suffix
      anchor := houter.anchor?_eq.trans hs.anchor
      knows := fun e he =>
        (hs.sane.opened e (houter.suffix.subset he)).mono (hs'.known.trans hs''.known) }
  have hrises (s'') (hs'' : Holds { t with known := s'.labels } s'') (e)
      (he : e ∈ s.opened.takeWhile (·.handle != handle)) : Rises s'' outer e :=
    let ⟨hmem, hplain, hsits⟩ := houter.of_mem_takeWhile hs.sane.nested he
    { plain := hplain, sits := hsits
      knows := (hs.sane.opened e hmem).mono (hs'.known.trans hs''.known) }
  have hdrop : s.opened.drop ((s.opened.takeWhile (·.handle != handle)).length + 1) = outer :=
    houter.drop_takeWhile
  rw [hdrop]
  split
  · refine Yields.bind (Supports.keeps_setOpened hsupports) fun _ => ?_
    exact Yields.bind (keeps_removeFormatting handle) fun _ => Keeps.pure _
  · rename_i block hblock
    have hmem := List.mem_reverse.1 (List.mem_of_find?_eq_some hblock)
    refine Yields.bind (keeps_splitAround formatting htag hsupports (fun s'' hs'' e he => ?_)
      fun s'' hs'' => hrises s'' hs'' block hmem) fun _ => Keeps.pure _
    exact hrises s'' hs'' e (List.takeWhile_subset _ he)

theorem keeps_adoptRounds (hname : name ∈ formattingTags) (rounds : Nat) :
    t.Keeps (adoptRounds name rounds) := by
  induction rounds with
  | zero => exact Keeps.pure ()
  | succ rounds ih =>
    exact Yields.bind (keeps_adoptRound hname) fun _ => Yields.ite (fun _ => ih) fun _ => Keeps.pure ()

theorem keeps_closeFormatting (hname : name ∈ formattingTags) : t.Keeps (closeFormatting name) := by
  refine Yields.get fun s hs => Keeps.weaken ?_ hs.known
  split
  · rename_i e rest hopened
    refine Yields.ite (fun hcurrent => ?_) fun _ => keeps_adoptRounds hname 8
    have hname' := (isHtml_iff.1 (Bool.and_eq_true_iff.1 hcurrent).1).2
    have hplain : ¬ structural e := not_structural_of_formatting (hname' ▸ hname)
    have hsuffix : rest <:+ s.opened := hopened ▸ List.suffix_cons e rest
    refine Supports.keeps_setOpened fun s' hs' => ⟨hs.sane.nested.suffix hsuffix, ?_, fun x hx => ?_⟩
    · rw [← anchor?_cons hplain, ← hopened, hs.anchor]
    · exact (hs.sane.opened x (hsuffix.subset hx)).mono hs'.known
  · exact keeps_adoptRounds hname 8

theorem keeps_closeOpenLink : t.Keeps closeOpenLink := by
  refine Yields.recent fun s entries hs hentries => Keeps.weaken ?_ hs.known
  dsimp only
  split
  · exact Keeps.pure ()
  rename_i handle hfound
  obtain ⟨label, hlabel, hname⟩ : ∃ label, s.labels[handle]? = some label ∧ label.2 ∉ structuralNames := by
    obtain ⟨entry, hmem, hentry⟩ := List.exists_of_findSome?_eq_some hfound
    split at hentry
    · cases hentry
    · split at hentry
      · rename_i tag hname
        obtain rfl := Option.some.inj hentry
        exact ⟨_, (hentries _ hmem).1, eq_of_beq hname ▸ by decide⟩
      · cases hentry
  refine Yields.bind (keeps_closeFormatting (by decide)) fun _ =>
    Yields.bind (keeps_removeFormatting handle) fun _ s' hs' => ?_
  exact hs'.removeOpen (getElem?_mono hs'.known hlabel) hname

end Setting

end DomQuery.Markup.Construction
