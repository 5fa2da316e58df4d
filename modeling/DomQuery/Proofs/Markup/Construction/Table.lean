import DomQuery.Markup.Construction.Table
import DomQuery.Proofs.Markup.Construction.Content

/-!
The rules for tables. Their parts are opened on one another, and closed up to the part that a mode is for.
-/
namespace DomQuery.Markup.Construction
open OpenElement
variable {s : State} {t : Setting} {e a : OpenElement} {outer : List OpenElement} {names : List String}
  {name : String} {tag : Tag} {run : Run} {item : Item} {p : OpenElement → Bool}

namespace Setting

theorem Yields.fostering {m : Build Next} (hm : { t with fosters := True }.Leads m) : t.Leads (fostering m) := by
  intro s hs
  have hlands := hm { s with fosters := true }
    { hs with sane := { hs.sane with }, fosters := fun _ => rfl }
  exact ⟨{ hlands.sane with }, hlands.settled⟩

theorem leads_misplaced (h : Suits t.mode t.anchor) (hitem : { t with fosters := True }.Takes item) :
    t.Leads (misplaced item) :=
  Yields.fostering (leads_inBody (t := { t with fosters := True }) h hitem)

/-! Structure. -/

theorem yields_popUpTo (h : StandsOn names t.anchor) (hp : ∀ e, e.isHtmlIn names → p e)
    (hp' : ∀ e, p e → structural e) :
    t.Yields (popUpTo p) fun _ s => t.Holds s ∧ StandsOn names s.opened.head? := by
  intro s hs
  obtain ⟨a, ha, hname⟩ := h
  obtain ⟨below, hbelow⟩ := exists_dropWhile (hs.anchor.trans ha) (hp a hname) hp'
  have hclosed : t.Holds { s with opened := s.opened.dropWhile (!p ·) } := by
    refine hs.close (List.dropWhile_suffix _) ?_
    rw [hbelow, anchor?_cons_of_structural (hp' a (hp a hname)), hs.anchor, ha]
  refine ⟨hclosed, a, ?_, hname⟩
  change (s.opened.dropWhile (!p ·)).head? = some a
  rw [hbelow, List.head?_cons]

theorem Holds.insertPart (hs : t.Holds s) (tag : Tag) (hstands : StandsOn names s.opened.head?)
    (hname : tag.name ∈ structuralNames) (hfooting : ∀ e, e.isHtml tag.name → names ∈ footing? e) :
    ∃ e, e.isHtml tag.name ∧ { t with anchor := some e }.Holds (insert tag s).2 :=
  insert_structural hs hname fun e he => sits_of_footing (hfooting e he) hstands

theorem Yields.openPart {m : Build Next} (h : StandsOn names t.anchor)
    (hp : ∀ e, e.isHtmlIn names → p e) (hp' : ∀ e, p e → structural e) (hname : tag.name ∈ structuralNames)
    (hfooting : ∀ e, e.isHtml tag.name → names ∈ footing? e)
    (hf : ∀ e, e.isHtml tag.name → Leads { t with anchor := some e } m) :
    t.Leads (do popUpTo p; insert tag; m) := by
  intro s hs
  obtain ⟨hclosed, hstands⟩ := yields_popUpTo h hp hp' s hs
  obtain ⟨e, he, hopened⟩ := hclosed.insertPart tag hstands hname hfooting
  exact hf e he _ hopened

theorem leads_startInTable (h : Suits t.mode t.anchor)
    (htable : tag.name ∈ tableStarts → Suits .inTable t.anchor) : t.Leads (startInTable tag) := by
  have hclose (hname : tag.name ∈ tableStarts) :
      t.Yields (popUpTo tableScope) fun _ s => t.Holds s ∧ StandsOn ["table", "template"] s.opened.head? :=
    yields_popUpTo (htable hname) (fun _ he => isHtmlIn_mono (by decide) he)
      fun _ he => isHtmlIn_mono (by decide) he
  have hkeep (hname : tag.name ∈ tableStarts) : t.Keeps (popUpTo tableScope) := fun s hs => (hclose hname s hs).1
  have hopen (tag' : Tag) {m : Build Next} (hname : tag.name ∈ tableStarts)
      (hsection : tag'.name ∈ ["tbody", "thead", "tfoot"])
      (hf : ∀ e, e.isHtml tag'.name → Leads { t with anchor := some e } m) :
      t.Leads (do popUpTo tableScope; insert tag'; m) := by
    have hapart : ∀ n ∈ ["tbody", "thead", "tfoot"], n ∈ structuralNames := by decide
    refine Yields.openPart (htable hname) (fun _ he => isHtmlIn_mono (by decide) he)
      (fun _ he => isHtmlIn_mono (by decide) he) (hapart _ hsection) (fun e he => ?_) hf
    exact footing?_of_section (isHtmlIn_mono (by decide) (isHtmlIn_of_isHtml hsection he))
  have hcolumns (hname : tag.name ∈ tableStarts) {tag' : Tag} (hcolgroup : tag'.name = "colgroup") :
      t.Keeps (insert tag') :=
    keeps_insertPlaced (hcolgroup ▸ by decide) fun s e hs he =>
      sits_columns (hcolgroup ▸ he) (hs.anchor ▸ htable hname)
  have hmisplaced : t.Leads (misplaced (.startTag tag)) := leads_misplaced h trivial
  have hdone : t.Leads (return .done) := leads_done h
  unfold startInTable
  split
  case h_1 hname =>
    intro s hs
    obtain ⟨hclosed, hstands⟩ := hclose (hname ▸ by decide) s hs
    have hmarked : t.Holds (pushMarker (popUpTo tableScope s).2).2 := keeps_pushMarker _ hclosed
    obtain ⟨e, he, hopened⟩ := hmarked.insertPart tag hstands (hname ▸ by decide) fun e he =>
      footing?_of_section (isHtmlIn_of_isHtml (by decide) (hname ▸ he))
    have hsuits : Suits .inCaption (some e) := ⟨e, rfl, isHtmlIn_of_isHtml (by decide) (hname ▸ he)⟩
    exact leads_setMode hsuits _ hopened
  case h_2 hname =>
    have hstart : tag.name ∈ tableStarts := hname ▸ by decide
    refine Yields.bind (hkeep hstart) fun _ => Yields.bind (hcolumns hstart hname) fun _ => ?_
    have hsuits : Suits .inColumnGroup t.anchor := htable hstart
    exact leads_setMode hsuits
  case h_3 hname =>
    have hstart : tag.name ∈ tableStarts := hname ▸ by decide
    refine Yields.bind (hkeep hstart) fun _ => Yields.bind (hcolumns hstart rfl) fun _ => ?_
    have hsuits : Suits .inColumnGroup t.anchor := htable hstart
    exact leads_reprocess hsuits
  case h_4 hname | h_5 hname | h_6 hname =>
    refine hopen tag (hname ▸ by decide) (by simp [hname]) fun e he => ?_
    have hsuits : Suits .inTableBody (some e) := ⟨e, rfl, isHtmlIn_of_isHtml (by decide) (hname ▸ he)⟩
    exact leads_setMode hsuits
  case h_7 hname | h_8 hname | h_9 hname =>
    have hsuits (e : OpenElement) (he : e.isHtml "tbody") : Suits .inTableBody (some e) :=
      ⟨e, rfl, isHtmlIn_of_isHtml (by decide) he⟩
    exact hopen { name := "tbody" } (hname ▸ by decide) (by decide) fun e he => leads_reprocess (hsuits e he)
  case h_10 hname =>
    refine Yields.bind (Keeps.of_reads fun _ => rfl) fun _ => Yields.ite (fun _ => ?_) fun _ => hdone
    exact Yields.popThrough fun s _ => leads_reprocess_resume
  case h_11 | h_12 | h_13 => exact leads_startHeadTag h
  case h_14 =>
    exact Yields.ite (fun _ => Yields.bind (keeps_insertClosed tag) fun _ => hdone) fun _ => hmisplaced
  case h_15 hname =>
    refine Yields.get fun s hs => Yields.bind (Keeps.of_reads fun _ => rfl) fun _ => ?_
    refine Yields.ite (fun _ => Yields.takeForm (fun s' hs' => ?_) (fun t' form h' hform => ?_) h) fun _ =>
      leads_done h
    · obtain ⟨hnext, hknows, heq⟩ := hs'.insertVoid .html tag
      exact ⟨hnext, hknows, heq ▸ hname ▸ isHtml_iff.2 ⟨rfl, rfl⟩⟩
    · exact Yields.bind hform fun _ => leads_done h'
  case h_16 => exact hmisplaced

theorem leads_endInTable (h : Suits t.mode t.anchor) : t.Leads (endInTable name) := by
  have hdone : t.Leads (return .done) := leads_done h
  unfold endInTable
  split
  case h_1 =>
    refine Yields.bind (Keeps.of_reads fun _ => rfl) fun _ => Yields.ite (fun _ => ?_) fun _ => hdone
    exact Yields.popThrough fun s _ => leads_resume
  case h_2 => exact leads_endTemplate h
  case h_14 =>
    refine leads_misplaced h (.inr fun a _ hs ha => ?_)
    rw [structural, isHtmlIn_iff, (isHtml_iff.1 ha).2] at hs
    simp only [structuralNames, List.mem_cons, List.not_mem_nil, or_false] at hs
    grind
  all_goals exact hdone

theorem leads_textInTable (h : Suits t.mode t.anchor) (hitem : { t with fosters := True }.Takes item) :
    t.Leads (textInTable item) := by
  refine Yields.bind (Keeps.of_reads fun _ => rfl) fun _ => Yields.ite (fun _ s hs => ?_) fun _ =>
    leads_misplaced h hitem
  have hsuits : Suits s.mode (anchor? s.opened) := by rwa [hs.mode, hs.anchor]
  exact ⟨{ hs.sane with }, hsuits⟩

theorem leads_inTable (h : Suits t.mode t.anchor) (hitem : HonestItem item)
    (htable : ∀ tag, item = .startTag tag → tag.name ∈ tableStarts → Suits .inTable t.anchor) :
    t.Leads (inTable item) := by
  cases item with
  | null => exact leads_textInTable h trivial
  | run run => exact leads_textInTable h ⟨hitem, .inr (.inl trivial)⟩
  | comment text => exact Yields.bind (keeps_appendComment text) fun _ => leads_done h
  | startTag tag => exact leads_startInTable h (htable tag rfl)
  | endTag name => exact leads_endInTable h
  | endOfFile => exact leads_inBody h trivial

/-! Text in a table. -/

theorem keeps_forM {α : Type} {f : α → Build Unit} {as : List α} (h : ∀ a ∈ as, t.Keeps (f a)) :
    t.Keeps (as.forM f) := by
  induction as with
  | nil => exact Keeps.pure ()
  | cons a as ih =>
    obtain ⟨ha, has⟩ := List.forall_mem_cons.1 h
    exact Yields.bind ha fun _ => ih has

theorem keeps_flushTableText (h : ¬ t.fosters) : t.Keeps flushTableText := by
  refine Yields.get fun s hs => Yields.bind (fun s' hs' => ?_) fun _ => Keeps.weaken ?_ hs.known
  · exact { hs' with sane := { hs'.sane with tableText := nofun } }
  have hhonest (run) (hrun : run ∈ s.tableText.reverse) : run.Honest :=
    hs.sane.tableText run (List.mem_reverse.1 hrun)
  refine Yields.ite (fun hblank => keeps_forM fun run hrun => ?_) fun _ => keeps_forM fun run hrun => ?_
  · exact keeps_appendText (.inl (hhonest run hrun (List.all_eq_true.1 hblank run hrun)))
  · refine Yields.bind (fun s' hs' => ?_) fun _ => Keeps.pure ()
    have hread : Keeps { t with fosters := True, known := s.labels } (inBody (.run run)) :=
      Yields.textInBody ⟨hhonest run hrun, .inr (.inl trivial)⟩ (Keeps.pure _)
    have hdone := hread { s' with fosters := true }
      { hs' with sane := { hs'.sane with }, fosters := fun _ => rfl }
    exact { hdone with sane := { hdone.sane with }, fosters := fun hf => absurd hf h }

theorem leads_inTableText (ht : t.mode = .inTableText) (h : Suits t.resumed t.anchor) (hf : ¬ t.fosters)
    (hitem : HonestItem item) : t.Leads (inTableText item) := by
  have hstay (s) (hs : t.Holds s) : Lands .done s := by
    refine ⟨hs.sane, ?_⟩
    rw [Next.modeAfter, hs.mode, ht, State.Settled, hs.resumed, hs.anchor]
    · exact h
    · exact nofun
  have hflush : t.Leads (do flushTableText; return .reprocess (← get).resumed) := by
    refine Yields.bind (keeps_flushTableText hf) fun _ => Yields.get fun s hs => leads_reprocess ?_
    exact hs.resumed ▸ h
  cases item with
  | null => exact hstay
  | run run =>
    exact fun s hs => hstay { s with tableText := run :: s.tableText }
      { hs with sane := { hs.sane with tableText := List.forall_mem_cons.2 ⟨hitem, hs.sane.tableText⟩ } }
  | comment text => exact hflush
  | startTag tag => exact hflush
  | endTag name => exact hflush
  | endOfFile => exact hflush

/-! Parts. -/

theorem Yields.closePart {m : Build Next} (h : ∃ a, t.anchor = some a ∧ p a ∧ names ∈ footing? a)
    (hp : ∀ e, p e → structural e) (hm : ∀ a, a.isHtmlIn names → Leads { t with anchor := some a } m) :
    t.Leads (do Construction.popThrough p; m) := by
  intro s hs
  obtain ⟨a, ha, hpa, hfoot⟩ := h
  obtain ⟨below, hbelow⟩ := exists_dropWhile (hs.anchor.trans ha) hpa hp
  have hn : Nested (a :: below) := hs.sane.nested.suffix (hbelow ▸ List.dropWhile_suffix _)
  obtain ⟨r, hr, hname⟩ := hn.1.footing names hfoot
  obtain ⟨rest, rfl⟩ := List.head?_eq_some_iff.1 hr
  have hanchor : anchor? (Construction.popThrough p s).2.opened = some r := by
    change anchor? (s.opened.dropWhile (!p ·)).tail = some r
    rw [hbelow, List.tail_cons]
    exact anchor?_cons_of_structural (isHtmlIn_mono (structural_of_mem_footing hfoot) hname)
  exact hm r hname _ { hs with sane := hs.sane.popThrough p, anchor := hanchor }

theorem Yields.closePartNamed {m : Build Next} (hname : name ∈ structuralNames)
    (h : ∃ a, t.anchor = some a ∧ a.isHtml name ∧ names ∈ footing? a)
    (hm : ∀ a, a.isHtmlIn names → Leads { t with anchor := some a } m) :
    t.Leads (do closeWithImplied name; m) := fun s hs => by
  have hclosed : t.Holds (closeImplied impliedEnds s).2 := keeps_closeImplied (by decide) s hs
  exact Yields.closePart h (fun _ he => isHtmlIn_of_isHtml hname he) hm _ hclosed

theorem Yields.ifFound {wanted scope : OpenElement → Bool} {m m' : Build Next}
    (hm : ∀ s, t.Holds s → inScopeOf wanted scope s.opened → t.Leads m) (hm' : t.Leads m') :
    t.Leads (do if ← inScope wanted scope then m else m') := by
  intro s hs
  change Lands ((if inScopeOf wanted scope s.opened then m else m') s).1
    ((if inScopeOf wanted scope s.opened then m else m') s).2
  split
  · rename_i hfound
    exact hm s hs hfound s hs
  · exact hm' s hs

/-! Captions and columns. -/

theorem leads_endCaption (h : Suits t.mode t.anchor) (hcaption : StandsOn ["caption"] t.anchor) (again : Bool) :
    t.Leads (endCaption again) := by
  obtain ⟨a, ha, hname⟩ := hcaption
  have hself : a.isHtml "caption" := by
    rw [isHtmlIn_iff, List.mem_singleton] at hname
    exact isHtml_iff.2 hname
  refine Yields.ifFound (fun _ _ _ => ?_) (leads_done h)
  refine Yields.closePartNamed (by decide) ⟨a, ha, hself, footing?_of_section (isHtmlIn_mono (by decide) hname)⟩
    fun x hx => Yields.bind keeps_clearToMarker fun _ => ?_
  have hsuits : Suits .inTable (some x) := ⟨x, rfl, hx⟩
  exact Yields.ite (fun _ => leads_reprocess hsuits) fun _ => leads_setMode hsuits

theorem leads_inCaption (ht : t.mode = .inCaption) (h : Suits t.mode t.anchor) (hitem : HonestItem item) :
    t.Leads (inCaption item) := by
  have hcaption : StandsOn ["caption"] t.anchor := by rwa [ht] at h
  have hbody (item) (hitem : t.Takes item) : t.Leads (inBody item) := leads_inBody h hitem
  cases item with
  | null => exact hbody .null trivial
  | run run => exact hbody (.run run) ⟨hitem, .inr (.inr (hcaption.apart (by decide)))⟩
  | comment text => exact hbody (.comment text) trivial
  | startTag tag =>
    exact Yields.ite (fun _ => leads_endCaption h hcaption true) fun _ => hbody (.startTag tag) trivial
  | endTag name =>
    unfold inCaption
    dsimp only
    split
    case h_1 => exact leads_endCaption h hcaption false
    case h_2 => exact leads_endCaption h hcaption true
    case h_13 =>
      refine hbody (.endTag name) (.inr fun a ha _ => StandsOn.not_isHtml (ha ▸ hcaption) ?_)
      rwa [List.mem_singleton]
    all_goals exact leads_done h
  | endOfFile => exact hbody .endOfFile trivial

theorem leads_endColumnGroup (ht : t.mode = .inColumnGroup) (h : Suits t.mode t.anchor) (again : Bool) :
    t.Leads (endColumnGroup again) := by
  have hsuits : Suits .inTable t.anchor := by rwa [ht] at h
  refine Yields.ifCurrent (fun e he => not_structural_of_isHtml (by decide) he) (fun s hs hplain => ?_)
    (leads_done h)
  have hgo : t.Leads (if again then return .reprocess .inTable else do Construction.setMode .inTable; return .done) :=
    Yields.ite (fun _ => leads_reprocess hsuits) fun _ => leads_setMode hsuits
  exact hgo _ (hs.pop hplain)

theorem leads_inColumnGroup (ht : t.mode = .inColumnGroup) (h : Suits t.mode t.anchor) (hitem : HonestItem item) :
    t.Leads (inColumnGroup item) := by
  have hend (again : Bool) : t.Leads (endColumnGroup again) := leads_endColumnGroup ht h again
  have hdone : t.Leads (return .done) := leads_done h
  cases item with
  | null => exact hend true
  | run run =>
    refine Yields.ite (fun _ => hend true) fun hblank => Yields.bind (keeps_appendText (.inl ?_)) fun _ => hdone
    exact hitem (by simpa using hblank)
  | comment text => exact Yields.bind (keeps_appendComment text) fun _ => hdone
  | startTag tag =>
    unfold inColumnGroup
    dsimp only
    split
    case h_1 => exact hdone
    case h_2 => exact Yields.bind (keeps_insertClosed tag) fun _ => hdone
    case h_3 => exact leads_startHeadTag h
    case h_4 => exact hend true
  | endTag name =>
    unfold inColumnGroup
    dsimp only
    split
    case h_1 => exact hend false
    case h_2 => exact hdone
    case h_3 => exact leads_endTemplate h
    case h_4 => exact hend true
  | endOfFile => exact leads_inBody h trivial

/-! Sections and rows. -/

/-- A part of a table that is found from a part is no further out than the innermost template. -/
theorem stands_of_found {wanted : OpenElement → Bool} {held : List String} (hs : t.Holds s)
    (hwanted : ∀ e, wanted e → e.isHtmlIn ["table", "tbody", "thead", "tfoot", "tr"])
    (hheld : StandsOn (held ++ ["template"]) t.anchor) (h : inScopeOf wanted tableScope s.opened) :
    StandsOn held t.anchor := by
  obtain ⟨a, below, -, hanchor, hfound⟩ := wanted_anchor h fun e he => isHtmlIn_mono (by decide) (hwanted e he)
  obtain ⟨a', ha', hname⟩ := hheld
  obtain rfl := Option.some.inj ((hs.anchor.symm.trans hanchor).symm.trans ha')
  obtain ⟨hns, hname⟩ := isHtmlIn_iff.1 hname
  rcases List.mem_append.1 hname with hin | htemplate
  · exact ⟨a, ha', isHtmlIn_iff.2 ⟨hns, hin⟩⟩
  · have hself : a.isHtmlIn ["template"] := isHtmlIn_iff.2 ⟨hns, htemplate⟩
    refine (hfound.elim (fun hw => ?_) fun hbelow => hbelow.1 ?_).elim
    · exact not_isHtmlIn (by decide) hself (hwanted a hw)
    · exact isHtmlIn_mono (by decide) hself

theorem leads_leaveSection {m : Build Next} (hsection : StandsOn ["tbody", "thead", "tfoot"] t.anchor)
    (hm : ∀ t' : Setting, t'.mode = .inTable → Suits .inTable t'.anchor → t'.Leads m) :
    t.Leads (do leaveSection; m) := by
  obtain ⟨a, ha, hname⟩ := hsection
  exact Yields.closePart (p := tableBodyContext) (m := do Construction.setMode .inTable; m)
    ⟨a, ha, isHtmlIn_mono (by decide) hname, footing?_of_section (isHtmlIn_mono (by decide) hname)⟩
    (fun _ he => isHtmlIn_mono (by decide) he) fun x hx => Yields.setMode (hm _ rfl ⟨x, rfl, hx⟩)

theorem leads_inTableBody (ht : t.mode = .inTableBody) (h : Suits t.mode t.anchor) (hitem : HonestItem item) :
    t.Leads (inTableBody item) := by
  have hsection : StandsOn ["tbody", "thead", "tfoot", "template"] t.anchor := by rwa [ht] at h
  have hdone : t.Leads (return .done) := leads_done h
  have htable (hstart : ∀ tag, item = .startTag tag → tag.name ∉ tableStarts) : t.Leads (inTable item) :=
    leads_inTable h hitem fun tag hitem hname => absurd hname (hstart tag hitem)
  have hopen (tag : Tag) {m : Build Next} (hrow : tag.name = "tr")
      (hm : ∀ e, Suits .inRow (some e) → Leads { t with anchor := some e } m) :
      t.Leads (do popUpTo tableBodyContext; insert tag; m) :=
    Yields.openPart hsection (fun _ he => isHtmlIn_mono (by decide) he) (fun _ he => isHtmlIn_mono (by decide) he)
      (hrow ▸ by decide) (fun e he => footing?_of_row (hrow ▸ he))
      fun e he => hm e ⟨e, rfl, isHtmlIn_of_isHtml (by decide) (hrow ▸ he)⟩
  have hleave {wanted : OpenElement → Bool} {m : Build Next}
      (hwanted : ∀ e, wanted e → e.isHtmlIn ["table", "tbody", "thead", "tfoot", "tr"])
      (hm : ∀ t' : Setting, t'.mode = .inTable → Suits .inTable t'.anchor → t'.Leads m) {m' : Build Next}
      (hm' : t.Leads m') : t.Leads (do if ← inScope wanted tableScope then do leaveSection; m else m') :=
    Yields.ifFound (fun s hs hfound => leads_leaveSection (stands_of_found hs hwanted hsection hfound) hm) hm'
  have hleaveFor : t.Leads inTableBody.leaveFor :=
    hleave (fun _ he => isHtmlIn_mono (by decide) he) (fun _ _ hsuits => leads_reprocess hsuits) hdone
  cases item with
  | null => exact htable nofun
  | run run => exact htable nofun
  | comment text => exact htable nofun
  | startTag tag =>
    unfold inTableBody
    dsimp only
    split
    case h_1 hname => exact hopen tag hname fun e he => leads_setMode he
    case h_2 | h_3 => exact hopen { name := "tr" } rfl fun e he => leads_reprocess he
    case h_10 =>
      refine htable fun tag' heq hname => ?_
      obtain rfl := Item.startTag.inj heq
      simp only [tableStarts, List.mem_cons, List.not_mem_nil, or_false] at hname
      grind
    all_goals exact hleaveFor
  | endTag name =>
    unfold inTableBody
    dsimp only
    split
    case h_1 | h_2 | h_3 =>
      refine hleave (fun e he => isHtmlIn_of_isHtml (by decide) he) (fun t' ht' hsuits => ?_) hdone
      exact leads_done (ht' ▸ hsuits)
    case h_4 => exact hleaveFor
    case h_13 => exact htable nofun
    all_goals exact hdone
  | endOfFile => exact htable nofun

theorem leads_endRow (ht : t.mode = .inRow) (h : Suits t.mode t.anchor) (again : Bool) :
    t.Leads (endRow again) := by
  have hrow : StandsOn ["tr", "template"] t.anchor := by rwa [ht] at h
  refine Yields.ifFound (fun s hs hfound => ?_) (leads_done h)
  have hname : StandsOn ["tr"] t.anchor :=
    stands_of_found hs (fun e he => isHtmlIn_of_isHtml (by decide) he) hrow hfound
  obtain ⟨a, ha, hname⟩ := hname
  have hself : a.isHtml "tr" := by
    rw [isHtmlIn_iff, List.mem_singleton] at hname
    exact isHtml_iff.2 hname
  refine Yields.closePart (p := tableRowContext)
    (m := if again then return .reprocess .inTableBody else do Construction.setMode .inTableBody; return .done)
    ⟨a, ha, isHtmlIn_mono (by decide) hname, footing?_of_row hself⟩ (fun _ he => isHtmlIn_mono (by decide) he)
    fun x hx => ?_
  have hsuits : Suits .inTableBody (some x) := ⟨x, rfl, hx⟩
  exact Yields.ite (fun _ => leads_reprocess hsuits) fun _ => leads_setMode hsuits

theorem leads_inRow (ht : t.mode = .inRow) (h : Suits t.mode t.anchor) (hitem : HonestItem item) :
    t.Leads (inRow item) := by
  have hrow : StandsOn ["tr", "template"] t.anchor := by rwa [ht] at h
  have hdone : t.Leads (return .done) := leads_done h
  have hend (again : Bool) : t.Leads (endRow again) := leads_endRow ht h again
  have htable (hstart : ∀ tag, item = .startTag tag → tag.name ∉ tableStarts) : t.Leads (inTable item) :=
    leads_inTable h hitem fun tag hitem hname => absurd hname (hstart tag hitem)
  cases item with
  | null => exact htable nofun
  | run run => exact htable nofun
  | comment text => exact htable nofun
  | startTag tag =>
    unfold inRow
    dsimp only
    split
    case h_1 hname | h_2 hname =>
      have hcell : ∀ e : OpenElement, e.isHtml tag.name → e.isHtmlIn ["td", "th"] := fun e he =>
        isHtmlIn_of_isHtml (by decide) (hname ▸ he)
      refine Yields.openPart hrow (fun _ he => isHtmlIn_mono (by decide) he)
        (fun _ he => isHtmlIn_mono (by decide) he) (hname ▸ by decide)
        (fun e he => footing?_of_cell (hcell e he)) fun e he => ?_
      have hsuits : Suits .inCell (some e) := ⟨e, rfl, hcell e he⟩
      exact Yields.setMode (Yields.bind keeps_pushMarker fun _ => leads_done hsuits)
    case h_10 =>
      refine htable fun tag' heq hname => ?_
      obtain rfl := Item.startTag.inj heq
      simp only [tableStarts, List.mem_cons, List.not_mem_nil, or_false] at hname
      grind
    all_goals exact hend true
  | endTag name =>
    unfold inRow
    dsimp only
    split
    case h_1 => exact hend false
    case h_2 => exact hend true
    case h_3 | h_4 | h_5 => exact Yields.ifFound (fun _ _ _ => hend true) hdone
    case h_13 => exact htable nofun
    all_goals exact hdone
  | endOfFile => exact htable nofun

/-! Cells. -/

theorem leads_inCell (ht : t.mode = .inCell) (h : Suits t.mode t.anchor) (hitem : HonestItem item) :
    t.Leads (inCell item) := by
  have hcell : StandsOn ["td", "th"] t.anchor := by rwa [ht] at h
  have hdone : t.Leads (return .done) := leads_done h
  have hbody (item) (hitem : t.Takes item) : t.Leads (inBody item) := leads_inBody h hitem
  have hclose : t.Leads closeCell := by
    obtain ⟨a, ha, hname⟩ := hcell
    refine Yields.bind (keeps_closeImplied (by decide)) fun _ => ?_
    refine Yields.closePart ⟨a, ha, hname, footing?_of_cell hname⟩ (fun _ he => isHtmlIn_mono (by decide) he)
      fun x hx => Yields.bind keeps_clearToMarker fun _ => ?_
    have hsuits : Suits .inRow (some x) := ⟨x, rfl, hx⟩
    exact leads_reprocess hsuits
  cases item with
  | null => exact hbody .null trivial
  | run run => exact hbody (.run run) ⟨hitem, .inr (.inr (hcell.apart (by decide)))⟩
  | comment text => exact hbody (.comment text) trivial
  | startTag tag =>
    refine Yields.ite (fun _ => Yields.ifFound (fun _ _ _ => hclose) hdone) fun _ => ?_
    exact hbody (.startTag tag) trivial
  | endTag name =>
    unfold inCell
    dsimp only
    split
    case h_1 | h_2 =>
      refine Yields.ifFound (fun s hs hfound => ?_) hdone
      obtain ⟨a, ha, hname, hin⟩ := hs.sane.nested.wanted_cell (by decide) hfound (hs.anchor ▸ hcell)
      refine Yields.closePartNamed (by decide) ⟨a, hs.anchor ▸ ha, hname, footing?_of_cell hin⟩ fun x hx => ?_
      have hsuits : Suits .inRow (some x) := ⟨x, rfl, hx⟩
      exact Yields.bind keeps_clearToMarker fun _ => leads_setMode hsuits
    case h_13 =>
      refine hbody (.endTag name) (.inr fun a ha _ => StandsOn.not_isHtml (ha ▸ hcell) fun hname => ?_)
      simp at hname
      grind
    case h_8 | h_9 | h_10 | h_11 | h_12 => exact Yields.ifFound (fun _ _ _ => hclose) hdone
    all_goals exact hdone
  | endOfFile => exact hbody .endOfFile trivial

end Setting
end DomQuery.Markup.Construction
