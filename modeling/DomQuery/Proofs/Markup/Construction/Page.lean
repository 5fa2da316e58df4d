import DomQuery.Markup.Construction.Page
import DomQuery.Proofs.Markup.Construction.Table

/-!
The rules around the content, and those for foreign elements. Every step ends in a mode that has its place
among the open elements.
-/
namespace DomQuery.Markup.Construction
open OpenElement
variable {s s' : State} {t : Setting} {e a : OpenElement} {es : List OpenElement} {name : String} {tag : Tag}
  {run : Run} {item : Item}

/-! The root and its sections. -/

theorem sits_root (h : e.isHtml "html") : Sits e [] where
  root _ := rfl
  page _ _ ha := by cases ha
  columns he := by simp [(isHtml_iff.1 h).2, isHtml_iff] at he
  footing names hnames := by
    have hpart := isPart_of_footing hnames
    simp [(isHtml_iff.1 h).2, isHtmlIn_iff] at hpart

theorem sits_page (h : e.isHtmlIn ["head", "body"]) (hhtml : ∀ a ∈ anchor? es, a.isHtml "html") :
    Sits e es := by
  have hroot : ¬ e.isHtmlIn ["html", "colgroup"] := not_isHtmlIn (by decide) h
  exact {
    root := fun he => absurd (isHtmlIn_of_isHtml (by decide) he) hroot
    page := fun _ => hhtml
    columns := fun he => absurd (isHtmlIn_of_isHtml (by decide) he) hroot
    footing := fun names hnames => absurd (isPart_of_footing hnames) (not_isHtmlIn (by decide) h) }

namespace Setting

theorem Yields.insertRoot {m : Build Next} (hname : tag.name = "html")
    (hm : ∀ e, e.isHtml "html" → Leads { t with anchor := some e } m) :
    t.Leads (do insertRoot tag; m) := by
  intro s hs
  obtain ⟨hmade, hknows⟩ := hs.newElement .html tag
  have hroot : (newElement .html tag s).1.isHtml "html" := hname ▸ isHtml_iff.2 ⟨rfl, rfl⟩
  have hput := hmade.now.edit (.insert (.inside none) (.node (newElement .html tag s).1.handle)) rfl trivial
  refine hm _ hroot _ { hput with
    sane := { hput.sane with nested := ?_, opened := ?_ }
    known := hs.known.trans ?_
    anchor := anchor?_cons_of_structural (isHtmlIn_of_isHtml (by decide) hroot) }
  · exact ⟨sits_root hroot, trivial⟩
  · exact List.forall_mem_singleton.2 (hknows.mono hput.known)
  · exact (hs.now.newElement .html tag).1.known.trans hput.known

theorem keeps_insertHead (hname : tag.name = "head") (hhtml : ∀ a ∈ t.anchor, a.isHtml "html") :
    t.Keeps (insertHead tag) := by
  intro s hs
  obtain ⟨hplaced, hknows, he⟩ := insertIn_placed hs fun e he =>
    sits_page (isHtmlIn_of_isHtml (by decide) (hname ▸ he)) (hs.anchor ▸ hhtml)
  rw [anchor?_cons (not_structural_of_isHtml (hname ▸ by decide) he), hs.anchor] at hplaced
  refine { hplaced with sane := { hplaced.sane with head := fun x hx => ?_ } }
  obtain rfl := Option.some.inj hx
  exact ⟨hknows, hname ▸ he⟩

theorem keeps_insertBody (hname : tag.name = "body") (hhtml : ∀ a ∈ t.anchor, a.isHtml "html") :
    t.Keeps (insert tag) :=
  keeps_insertPlaced (hname ▸ by decide) fun s e hs he =>
    sits_page (isHtmlIn_of_isHtml (by decide) (hname ▸ he)) (hs.anchor ▸ hhtml)

theorem Holds.popAny (hs : t.Holds s) : { t with anchor := anchor? s.opened.tail }.Holds (Construction.pop s).2 :=
  { hs with
    sane := { hs.sane with
      nested := hs.sane.nested.suffix (List.tail_suffix _)
      opened := fun e he => hs.sane.opened e (List.mem_of_mem_tail he) }
    anchor := rfl }

theorem Yields.popPage {m : Build Next} (hhtml : ∀ a ∈ t.anchor, a.isHtml "html")
    (hm : ∀ o, (∀ a ∈ o, a.isHtml "html") → Leads { t with anchor := o } m) : t.Leads (do pop; m) := by
  intro s hs
  refine hm _ (fun a ha => ?_) _ hs.popAny
  have hn := hs.sane.nested
  rw [← hs.anchor] at hhtml
  cases hopened : s.opened with
  | nil =>
    rw [hopened] at ha
    cases ha
  | cons e rest =>
    rw [hopened] at ha hhtml hn
    by_cases he : structural e
    · have hroot := hhtml e (anchor?_cons_of_structural he)
      rw [List.tail_cons, hn.1.root hroot] at ha
      cases ha
    · rw [anchor?_cons he] at hhtml
      exact hhtml a ha

/-! Before the content. -/

theorem leads_initial (ht : t.mode = .initial) (item : Item) : t.Leads (initial item) := by
  have hdone : t.Leads (return .done) := leads_done (ht ▸ trivial)
  have hbegin : t.Leads initial.begin :=
    Yields.bind (fun _ hs => { hs with sane := { hs.sane with } }) fun _ => leads_reprocess trivial
  cases item with
  | run run => exact Yields.ite (fun _ => hdone) fun _ => hbegin
  | comment text => exact Yields.bind (keeps_appendCommentTo _ text) fun _ => hdone
  | _ => exact hbegin

theorem leads_beforeHtml (ht : t.mode = .beforeHtml) (item : Item) : t.Leads (beforeHtml item) := by
  have hdone : t.Leads (return .done) := leads_done (ht ▸ trivial)
  have hhead (e : OpenElement) (he : e.isHtml "html") : Suits .beforeHead (some e) := fun a ha =>
    Option.some.inj ha ▸ he
  have hbegin : t.Leads beforeHtml.begin :=
    Yields.insertRoot (by exact rfl) fun e he => leads_reprocess (hhead e he)
  cases item with
  | run run => exact Yields.ite (fun _ => hdone) fun _ => hbegin
  | comment text => exact Yields.bind (keeps_appendCommentTo _ text) fun _ => hdone
  | startTag tag =>
    exact Yields.ite (fun hname => Yields.insertRoot (eq_of_beq hname) fun e he => leads_setMode (hhead e he))
      fun _ => hbegin
  | endTag name => exact Yields.ite (fun _ => hbegin) fun _ => hdone
  | null => exact hbegin
  | endOfFile => exact hbegin

theorem leads_beforeHead (ht : t.mode = .beforeHead) (h : Suits t.mode t.anchor) (item : Item) :
    t.Leads (beforeHead item) := by
  have hdone : t.Leads (return .done) := leads_done h
  have hhtml : ∀ a ∈ t.anchor, a.isHtml "html" := by rwa [ht] at h
  have hsuits : Suits .inHead t.anchor := hhtml
  have hbegin : t.Leads beforeHead.begin :=
    Yields.bind (keeps_insertHead (by exact rfl) hhtml) fun _ => leads_reprocess hsuits
  cases item with
  | run run => exact Yields.ite (fun _ => hdone) fun _ => hbegin
  | comment text => exact Yields.bind (keeps_appendComment text) fun _ => hdone
  | startTag tag =>
    unfold beforeHead
    dsimp only
    split
    case h_1 => exact hdone
    case h_2 hname =>
      exact Yields.bind (keeps_insertHead hname hhtml) fun _ => leads_setMode hsuits
    case h_3 => exact hbegin
  | endTag name => exact Yields.ite (fun _ => hbegin) fun _ => hdone
  | null => exact hbegin
  | endOfFile => exact hbegin

theorem leads_inHead (ht : t.mode = .inHead) (h : Suits t.mode t.anchor) (hitem : HonestItem item) :
    t.Leads (inHead item) := by
  have hdone : t.Leads (return .done) := leads_done h
  have hhtml : ∀ a ∈ t.anchor, a.isHtml "html" := by rwa [ht] at h
  have hafter (o : Option OpenElement) (ho : ∀ a ∈ o, a.isHtml "html") : Suits .afterHead o := ho
  have hleave : t.Leads inHead.leave := Yields.popPage hhtml fun o ho => leads_reprocess (hafter o ho)
  cases item with
  | run run =>
    exact Yields.ite (fun hblank => Yields.bind (keeps_appendText (.inl (hitem hblank))) fun _ => hdone)
      fun _ => hleave
  | comment text => exact Yields.bind (keeps_appendComment text) fun _ => hdone
  | startTag tag =>
    refine Yields.ite (fun _ => leads_startHeadTag h) fun _ => ?_
    split
    case h_1 | h_2 => exact hdone
    case h_3 hname => exact leads_insertText h (hname ▸ by decide) _
    case h_4 => exact hleave
  | endTag name =>
    unfold inHead
    dsimp only
    split
    case h_1 => exact Yields.popPage hhtml fun o ho => leads_setMode (hafter o ho)
    case h_2 => exact leads_endTemplate h
    case h_3 => exact Yields.ite (fun _ => hleave) fun _ => hdone
  | null => exact hleave
  | endOfFile => exact hleave

/-! Behind the head. -/

def Grows {α : Type} (m : Build α) : Prop := ∀ s, s.labels <+: (m s).2.labels

theorem Grows.bind {α β : Type} {m : Build α} {f : α → Build β} (hm : Grows m) (hf : ∀ a, Grows (f a)) :
    Grows (m >>= f) := fun s => (hm s).trans (hf _ _)

theorem grows_of_same {α : Type} {m : Build α} (h : ∀ s, (m s).2.labels = s.labels) : Grows m := fun s =>
  (h s).symm ▸ List.prefix_rfl

theorem grows_insertVoid (ns : Namespace) (tag : Tag) : Grows (insertVoid ns tag) := fun s => by
  rw [insertVoid_run]
  exact (State.labels_prefix s _ _).trans (State.labels_prefix _ _ _)

theorem grows_insert (tag : Tag) : Grows (insert tag) := grows_insertVoid .html tag

theorem grows_startHeadTag (tag : Tag) : Grows (startHeadTag tag) := by
  have hinsert {m : Build Next} (h : ∀ s, (m s).2.labels = s.labels) : Grows (do insert tag; m) :=
    (grows_insert tag).bind fun _ => grows_of_same h
  unfold startHeadTag
  split
  case h_1 | h_2 | h_3 | h_4 => exact hinsert fun _ => rfl
  case h_5 =>
    have hopen : Grows (do
        insert tag
        pushMarker
        forbidFrameset
        Construction.setMode .inTemplate
        pushTemplateMode .inTemplate
        return .done : Build Next) := hinsert fun _ => rfl
    refine (grows_of_same fun _ => rfl).bind fun asks => ?_
    dsimp only
    split
    · exact Grows.bind (fun s => State.labels_prefix s _ _) fun _ => hopen
    · exact hopen
  case h_6 =>
    have hinserted : Grows (insertClosed tag) := grows_insertVoid .html tag
    exact hinserted.bind fun _ => grows_of_same fun _ => rfl

theorem lands_removeOpen {next : Next} (h : Lands next s) {handle : Handle}
    (hlabel : s.labels[handle]? = some (.html, "head")) : Lands next (removeOpen handle s).2 := by
  have hremoved := h.sane.holds.removeOpen hlabel (by decide)
  have hmode : next.modeAfter (removeOpen handle s).2 = next.modeAfter s := by
    cases next <;> rfl
  refine ⟨hremoved.sane, hmode ▸ h.settled.congr hremoved.anchor rfl ?_⟩
  rintro ⟨e, he, hname⟩
  obtain ⟨rest, hopened⟩ := List.head?_eq_some_iff.1 he
  have hother : e.handle ≠ handle := fun heq => by
    have hknows := h.sane.opened e (hopened ▸ List.mem_cons_self)
    rw [State.Knows, heq, hlabel] at hknows
    rw [isHtmlIn_iff, ← (Prod.mk.inj (Option.some.inj hknows)).2] at hname
    exact absurd hname.2 (by decide)
  refine ⟨e, ?_, hname⟩
  change (s.opened.filter (·.handle != handle)).head? = some e
  rw [hopened, List.filter_cons_of_pos (by simpa using hother), List.head?_cons]

/-- The head is opened for a tag, and taken out again under what the tag has opened. -/
theorem leads_lateHeadTag (ht : t.mode = .afterHead) (h : Suits t.mode t.anchor) :
    t.Leads (lateHeadTag tag) := by
  have hhtml : ∀ a ∈ t.anchor, a.isHtml "html" := by rwa [ht] at h
  refine Yields.get fun s hs => ?_
  split
  · exact leads_done h
  rename_i head hhead
  obtain ⟨hknows, hname⟩ := hs.sane.head head hhead
  intro s1 hs1
  have hopened : t.Holds { s1 with opened := head :: s1.opened } :=
    { hs1 with
      sane := { hs1.sane with
        nested := ⟨sits_page (isHtmlIn_of_isHtml (by decide) hname) (hs1.anchor ▸ hhtml), hs1.sane.nested⟩
        opened := List.forall_mem_cons.2 ⟨hknows.mono hs1.known, hs1.sane.opened⟩ }
      anchor := (anchor?_cons (not_structural_of_isHtml (by decide) hname)).trans hs1.anchor
      known := hs.known.trans hs1.known }
  have hlabel : s.labels[head.handle]? = some (.html, "head") := by
    rw [← (isHtml_iff.1 hname).1, ← (isHtml_iff.1 hname).2]
    exact hknows
  have hgrown := grows_startHeadTag tag { s1 with opened := head :: s1.opened }
  exact lands_removeOpen (leads_startHeadTag h _ hopened)
    (getElem?_mono hgrown (getElem?_mono hs1.known hlabel))

theorem leads_afterHead (ht : t.mode = .afterHead) (h : Suits t.mode t.anchor) (hitem : HonestItem item) :
    t.Leads (afterHead item) := by
  have hdone : t.Leads (return .done) := leads_done h
  have hhtml : ∀ a ∈ t.anchor, a.isHtml "html" := by rwa [ht] at h
  have hbody : Suits .inBody t.anchor := fun a ha => isHtmlIn_of_isHtml (by decide) (hhtml a ha)
  have hbegin : t.Leads afterHead.begin :=
    Yields.bind (keeps_insertBody (by exact rfl) hhtml) fun _ => leads_reprocess hbody
  cases item with
  | run run =>
    exact Yields.ite (fun hblank => Yields.bind (keeps_appendText (.inl (hitem hblank))) fun _ => hdone)
      fun _ => hbegin
  | comment text => exact Yields.bind (keeps_appendComment text) fun _ => hdone
  | startTag tag =>
    refine Yields.ite (fun _ => leads_lateHeadTag ht h) fun _ => ?_
    split
    case h_1 | h_2 => exact hdone
    case h_3 hname =>
      refine Yields.bind (keeps_insertBody hname hhtml) fun _ => Yields.bind keeps_forbidFrameset fun _ => ?_
      exact leads_setMode hbody
    case h_4 hname => exact Yields.bind (keeps_insert (hname ▸ by decide)) fun _ => leads_setMode trivial
    case h_5 => exact hbegin
  | endTag name =>
    exact Yields.ite (fun _ => leads_endTemplate h) fun _ => Yields.ite (fun _ => hbegin) fun _ => hdone
  | null => exact hbegin
  | endOfFile => exact hbegin

/-! Text elements. -/

theorem not_placed_of_text (h : StandsOn textNames s.opened.head?) :
    ∀ e ∈ s.opened.head?, ¬ structural e ∧ ¬ e.isHtmlIn tableParts := by
  obtain ⟨e, he, hname⟩ := h
  intro x hx
  obtain rfl := Option.some.inj (he.symm.trans hx)
  exact ⟨not_isHtmlIn (by decide) hname, not_isHtmlIn (by decide) hname⟩

theorem lands_inText (hs : s.Sane) (hmode : s.mode = .text) (h : s.Settled s.mode) :
    Lands (inText item s).1 (inText item s).2 := by
  have htext : s.Settled .text := hmode ▸ h
  have hcurrent := not_placed_of_text htext.1
  have hpopped : (of s).Holds (pop s).2 := hs.holds.pop fun e he => (hcurrent e he).1
  have hsuits : Suits s.resumed (anchor? (pop s).2.opened) := hpopped.anchor ▸ htext.2
  have hdone : Lands .done s := hs.holds.lands_same h id
  cases item with
  | run run =>
    have happended : (of s).Holds (appendText run.text s).2 := by
      refine hs.holds.appendText (.inr (.inr ?_))
      rintro ⟨e, he, hname⟩
      exact (hcurrent e he).2 hname
    have hopened : (appendText run.text s).2.opened = s.opened := by rw [appendText_run]
    exact happended.lands_same h fun hsame => hopened ▸ hsame
  | endOfFile => exact ⟨hpopped.sane, State.settled_of_suits hsuits⟩
  | endTag name =>
    have hsettled : State.Settled { (pop s).2 with mode := s.resumed } s.resumed :=
      State.settled_of_suits hsuits
    refine ⟨{ hpopped.sane with }, ?_⟩
    change State.Settled { (pop s).2 with mode := s.resumed }
      ((if name == "script" then .read { dropsMark := true } else .done : Next).modeAfter _)
    split <;> exact hsettled
  | startTag tag => exact hdone
  | comment text => exact hdone
  | null => exact hdone

/-! After the content. -/

theorem leads_afterBody (ht : t.mode = .afterBody) (h : Suits t.mode t.anchor) (hitem : HonestItem item) :
    t.Leads (afterBody item) := by
  have hbody : Suits .afterBody t.anchor := by rwa [ht] at h
  have hdone : t.Leads (return .done) := leads_done h
  have hsuits : Suits .inBody t.anchor := hbody
  have hback : t.Leads (return .reprocess .inBody) := leads_reprocess hsuits
  cases item with
  | run run => exact Yields.ite (fun hblank => Yields.textInBody ⟨hitem, .inl hblank⟩ hdone) fun _ => hback
  | comment text =>
    exact Yields.bind (Keeps.of_reads fun _ => rfl) fun _ => Yields.bind (keeps_appendCommentTo _ text) fun _ => hdone
  | startTag tag => exact Yields.ite (fun _ => hdone) fun _ => hback
  | endTag name =>
    have hafter : Suits .afterAfterBody t.anchor := hbody
    exact Yields.ite (fun _ => leads_setMode hafter) fun _ => hback
  | null => exact hback
  | endOfFile => exact hdone

theorem leads_afterAfterBody (ht : t.mode = .afterAfterBody) (h : Suits t.mode t.anchor)
    (hitem : HonestItem item) : t.Leads (afterAfterBody item) := by
  have hbody : Suits .afterAfterBody t.anchor := by rwa [ht] at h
  have hdone : t.Leads (return .done) := leads_done h
  have hsuits : Suits .inBody t.anchor := hbody
  have hback : t.Leads (return .reprocess .inBody) := leads_reprocess hsuits
  cases item with
  | run run => exact Yields.ite (fun hblank => Yields.textInBody ⟨hitem, .inl hblank⟩ hdone) fun _ => hback
  | comment text => exact Yields.bind (keeps_appendCommentTo _ text) fun _ => hdone
  | startTag tag => exact Yields.ite (fun _ => hdone) fun _ => hback
  | endTag name => exact hback
  | null => exact hback
  | endOfFile => exact hdone

/-! Framesets. -/

theorem leads_blankInFrameset (h : Suits t.mode t.anchor) (hrun : run.Honest) : t.Leads (blankInFrameset run) :=
  Yields.ite (fun hblank => Yields.bind (keeps_appendText (.inl (hrun hblank))) fun _ => leads_done h)
    fun _ => leads_done h

theorem leads_inFrameset (ht : t.mode = .inFrameset) (hitem : HonestItem item) : t.Leads (inFrameset item) := by
  have h : Suits t.mode t.anchor := ht ▸ trivial
  have hdone : t.Leads (return .done) := leads_done h
  cases item with
  | run run => exact leads_blankInFrameset h hitem
  | comment text => exact Yields.bind (keeps_appendComment text) fun _ => hdone
  | startTag tag =>
    unfold inFrameset
    dsimp only
    split
    case h_1 hname => exact Yields.bind (keeps_insert (hname ▸ by decide)) fun _ => hdone
    case h_2 => exact Yields.bind (keeps_insertClosed tag) fun _ => hdone
    case h_3 => exact leads_startHeadTag h
    case h_4 => exact hdone
  | endTag name =>
    refine Yields.bind (Keeps.of_reads fun _ => rfl) fun es => Yields.ite (fun _ s hs => ?_) fun _ => hdone
    have hpopped := hs.popAny
    have hleft : Leads { t with anchor := anchor? s.opened.tail } (do
        if !(← currentIs (·.isHtml "frameset")) then Construction.setMode .afterFrameset
        return .done) := by
      refine Yields.bind (Keeps.of_reads fun _ => rfl) fun _ => Yields.ite (fun _ => leads_setMode trivial) fun _ => ?_
      exact leads_done (ht ▸ trivial)
    exact hleft _ hpopped
  | null => exact hdone
  | endOfFile => exact hdone

theorem leads_afterFrameset (ht : t.mode = .afterFrameset) (hitem : HonestItem item) :
    t.Leads (afterFrameset item) := by
  have h : Suits t.mode t.anchor := ht ▸ trivial
  have hdone : t.Leads (return .done) := leads_done h
  cases item with
  | run run => exact leads_blankInFrameset h hitem
  | comment text => exact Yields.bind (keeps_appendComment text) fun _ => hdone
  | startTag tag => exact Yields.ite (fun _ => leads_startHeadTag h) fun _ => hdone
  | endTag name => exact Yields.ite (fun _ => leads_setMode trivial) fun _ => hdone
  | null => exact hdone
  | endOfFile => exact hdone

theorem leads_afterAfterFrameset (ht : t.mode = .afterAfterFrameset) (hitem : HonestItem item) :
    t.Leads (afterAfterFrameset item) := by
  have h : Suits t.mode t.anchor := ht ▸ trivial
  have hdone : t.Leads (return .done) := leads_done h
  cases item with
  | run run => exact Yields.ite (fun hblank => Yields.textInBody ⟨hitem, .inl hblank⟩ hdone) fun _ => hdone
  | comment text => exact Yields.bind (keeps_appendCommentTo _ text) fun _ => hdone
  | startTag tag => exact Yields.ite (fun _ => leads_startHeadTag h) fun _ => hdone
  | endTag name => exact hdone
  | null => exact hdone
  | endOfFile => exact hdone

end Setting
end DomQuery.Markup.Construction
