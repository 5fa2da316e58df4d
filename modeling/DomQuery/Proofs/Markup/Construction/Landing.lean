import DomQuery.Proofs.Markup.Construction.Adoption

/-!
How a step of construction ends: in a mode that has its place among the open elements.
-/
namespace DomQuery.Markup.Construction
open OpenElement Setting
variable {s s' : State} {t : Setting} {e : OpenElement} {es outer : List OpenElement} {names : List String}
  {name : String} {mode : Mode} {next : Next} {tag : Tag} {p : OpenElement → Bool} {α β : Type}

def textNames : List String :=
  ["title", "script", "noframes", "style", "textarea", "xmp", "iframe", "noembed", "noscript"]

def Next.modeAfter (next : Next) (s : State) : Mode :=
  match next with
  | .reprocess mode => mode
  | _ => s.mode

/-- The open elements are such as a mode is for. -/
def State.Settled (s : State) : Mode → Prop
  | .text => StandsOn textNames s.opened.head? ∧ Suits s.resumed (anchor? s.opened)
  | .inTableText => Suits s.resumed (anchor? s.opened)
  | mode => Suits mode (anchor? s.opened)

theorem State.settled_of_suits (h : Suits mode (anchor? s.opened)) : s.Settled mode := by
  cases mode with
  | text | inTableText => exact h.elim
  | _ => exact h

theorem State.Settled.suits (h : s.Settled mode) (htext : mode ≠ .text) (htable : mode ≠ .inTableText) :
    Suits mode (anchor? s.opened) := by
  cases mode with
  | text => exact absurd rfl htext
  | inTableText => exact absurd rfl htable
  | _ => exact h

theorem State.Settled.congr (h : s.Settled mode) (hanchor : anchor? s'.opened = anchor? s.opened)
    (hresumed : s'.resumed = s.resumed)
    (hcurrent : StandsOn textNames s.opened.head? → StandsOn textNames s'.opened.head?) : s'.Settled mode := by
  cases mode with
  | text =>
    refine ⟨hcurrent h.1, ?_⟩
    rw [hresumed, hanchor]
    exact h.2
  | inTableText =>
    change Suits s'.resumed (anchor? s'.opened)
    rw [hresumed, hanchor]
    exact h
  | _ =>
    refine State.settled_of_suits ?_
    rw [hanchor]
    exact h

/-- Where a step leads. -/
structure Lands (next : Next) (s : State) : Prop where
  sane : s.Sane
  settled : s.Settled (next.modeAfter s)

namespace Setting

abbrev Leads (t : Setting) (m : Build Next) : Prop := t.Yields m Lands

theorem Holds.lands (hs : t.Holds s) (h : Suits (next.modeAfter s) t.anchor) : Lands next s :=
  ⟨hs.sane, State.settled_of_suits (hs.anchor ▸ h)⟩

theorem leads_pure (h : ∀ s, t.Holds s → Suits (next.modeAfter s) t.anchor) : t.Leads (pure next) :=
  fun s hs => hs.lands (h s hs)

theorem leads_done (h : Suits t.mode t.anchor) : t.Leads (return .done) :=
  leads_pure fun s hs => (hs.mode.symm ▸ h : Suits s.mode t.anchor)

theorem leads_read (h : Suits t.mode t.anchor) (reading : Lexer.Reading) : t.Leads (return .read reading) :=
  leads_pure fun s hs => (hs.mode.symm ▸ h : Suits s.mode t.anchor)

theorem leads_reprocess (h : Suits mode t.anchor) : t.Leads (return .reprocess mode) :=
  leads_pure fun _ _ => h

theorem Holds.setMode (hs : t.Holds s) (mode : Mode) :
    { t with mode : Setting }.Holds (setMode mode s).2 :=
  { hs with sane := { hs.sane with }, mode := rfl }

theorem Yields.setMode {f : Unit → Build β} {post : β → State → Prop}
    (hf : Yields { t with mode } (f ()) post) : t.Yields (Construction.setMode mode >>= f) post :=
  fun _ hs => hf _ (hs.setMode mode)

theorem leads_setMode (h : Suits mode t.anchor) :
    t.Leads (do Construction.setMode mode; return .done) := Yields.setMode (leads_done h)

def of (s : State) : Setting := ⟨anchor? s.opened, s.mode, s.resumed, False, s.labels⟩

end Setting

theorem State.Sane.holds (h : s.Sane) : (Setting.of s).Holds s :=
  ⟨h, rfl, rfl, rfl, False.elim, List.prefix_rfl⟩

theorem Setting.Holds.lands_same (hs : (Setting.of s).Holds s') (h : s.Settled s.mode)
    (hcurrent : StandsOn textNames s.opened.head? → StandsOn textNames s'.opened.head?) : Lands .done s' := by
  refine ⟨hs.sane, ?_⟩
  change s'.Settled s'.mode
  rw [hs.mode]
  exact h.congr hs.anchor hs.resumed hcurrent

theorem State.Sane.popThrough (h : s.Sane) (p : OpenElement → Bool) : (popThrough p s).2.Sane :=
  have hsuffix := (List.tail_suffix _).trans (List.dropWhile_suffix (!p ·))
  { h with
    nested := h.nested.suffix hsuffix
    opened := fun e he => h.opened e (hsuffix.subset he) }

theorem State.Sane.suits_currentMode (h : s.Sane) : Suits (currentMode s).1 (anchor? s.opened) :=
  h.nested.suits_modeFor h.templateModes s.head.isSome

namespace Setting

theorem Yields.popThrough {f : Unit → Build β} {post : β → State → Prop}
    (hf : ∀ s, s.Sane → (of s).Yields (f ()) post) : t.Yields (Construction.popThrough p >>= f) post :=
  fun _ hs => hf _ (hs.sane.popThrough p) _ (hs.sane.popThrough p).holds

theorem leads_resume : t.Leads (do Construction.setMode (← currentMode); return .done) := fun s hs =>
  have hmoded := hs.setMode (currentMode s).1
  ⟨hmoded.sane, State.settled_of_suits hs.sane.suits_currentMode⟩

theorem leads_reprocess_resume : t.Leads (do return .reprocess (← currentMode)) := fun _ hs =>
  ⟨hs.sane, State.settled_of_suits hs.sane.suits_currentMode⟩

theorem Yields.setOpened {f : Unit → Build β} {post : β → State → Prop}
    (h : ∀ s, t.Holds s → Nested es ∧ ∀ e ∈ es, s.Knows e)
    (hf : Yields { t with anchor := anchor? es } (f ()) post) : t.Yields (setOpened es >>= f) post :=
  fun s hs => hf _ { hs with
    sane := { hs.sane with nested := (h s hs).1, opened := (h s hs).2 }
    anchor := rfl }

/-! Elements that have a place of their own. -/

theorem insertIn_placed (hs : t.Holds s) (hsits : ∀ e, e.isHtml tag.name → Sits e s.opened) :
    { t with anchor := anchor? ((insertIn .html tag s).1 :: s.opened) }.Holds (insertIn .html tag s).2 ∧
      (insertIn .html tag s).2.Knows (insertIn .html tag s).1 ∧ (insertIn .html tag s).1.isHtml tag.name := by
  obtain ⟨hvoid, hknows, heq⟩ := hs.insertVoid .html tag
  have hname : (insertVoid .html tag s).1.isHtml tag.name := heq ▸ isHtml_iff.2 ⟨rfl, rfl⟩
  have hopened : (insertVoid .html tag s).2.opened = s.opened := by
    rw [insertVoid_run]
    rfl
  refine ⟨?_, hknows, hname⟩
  change Holds { t with anchor := anchor? ((insertVoid .html tag s).1 :: s.opened) }
    { (insertVoid .html tag s).2 with
      opened := (insertVoid .html tag s).1 :: (insertVoid .html tag s).2.opened }
  rw [hopened]
  exact { hvoid with
    sane := { hvoid.sane with
      nested := ⟨hsits _ hname, hs.sane.nested⟩
      opened := List.forall_mem_cons.2 ⟨hknows, hopened ▸ hvoid.sane.opened⟩ }
    anchor := rfl }

theorem keeps_insertPlaced (hname : tag.name ∉ structuralNames)
    (hsits : ∀ s e, t.Holds s → e.isHtml tag.name → Sits e s.opened) : t.Keeps (insert tag) := fun s hs => by
  obtain ⟨hplaced, -, he⟩ := insertIn_placed hs (hsits s · hs)
  rw [anchor?_cons (not_structural_of_isHtml hname he), hs.anchor] at hplaced
  exact hplaced

theorem insert_structural (hs : t.Holds s) (hname : tag.name ∈ structuralNames)
    (hsits : ∀ e, e.isHtml tag.name → Sits e s.opened) :
    ∃ e, e.isHtml tag.name ∧ { t with anchor := some e }.Holds (insert tag s).2 := by
  obtain ⟨hplaced, -, he⟩ := insertIn_placed hs hsits
  rw [anchor?_cons_of_structural (isHtmlIn_of_isHtml hname he)] at hplaced
  exact ⟨_, he, hplaced⟩

theorem Yields.insertStructural {f : Unit → Build β} {post : β → State → Prop}
    (hname : tag.name ∈ structuralNames) (hsits : ∀ s e, t.Holds s → e.isHtml tag.name → Sits e s.opened)
    (hf : ∀ e, e.isHtml tag.name → Yields { t with anchor := some e } (f ()) post) :
    t.Yields (insert tag >>= f) post := fun s hs => by
  obtain ⟨e, he, hplaced⟩ := insert_structural hs hname (hsits s · hs)
  exact hf e he _ hplaced

/-! Templates. -/

theorem keeps_pushTemplateMode (h : mode ∈ modesOfTemplates) : t.Keeps (pushTemplateMode mode) :=
  fun _ hs => { hs with sane := { hs.sane with
    templateModes := List.forall_mem_cons.2 ⟨h, hs.sane.templateModes⟩ } }

theorem keeps_popTemplateMode : t.Keeps popTemplateMode := fun _ hs => { hs with sane := { hs.sane with
  templateModes := fun m hm => hs.sane.templateModes m (List.mem_of_mem_tail hm) } }

theorem sits_holder (he : e.isHtmlIn ["template", "table"]) : Sits e es where
  root hroot := by
    rw [isHtmlIn_iff] at he
    rw [isHtml_iff] at hroot
    grind
  page hpage := absurd hpage (not_isHtmlIn (by decide) he)
  columns hcolumns := by
    rw [isHtmlIn_iff] at he
    rw [isHtml_iff] at hcolumns
    grind
  footing names hnames := by
    have hpart : ¬ e.isHtmlIn ["caption", "tbody", "thead", "tfoot"] := not_isHtmlIn (by decide) he
    have hcell : ¬ e.isHtmlIn ["td", "th"] := not_isHtmlIn (by decide) he
    have hrow : ¬ e.isHtml "tr" := fun hrow => by
      rw [isHtmlIn_iff] at he
      rw [isHtml_iff] at hrow
      grind
    rw [footing?, if_neg hpart, if_neg hrow, if_neg hcell] at hnames
    cases hnames

theorem leads_insertTemplate (hname : tag.name = "template") : t.Leads (insertTemplate tag) := by
  refine Yields.bind (Keeps.of_reads fun _ => rfl) fun asks => ?_
  have hinsert : t.Leads (do
      insert tag
      pushMarker
      forbidFrameset
      Construction.setMode .inTemplate
      pushTemplateMode .inTemplate
      return .done) := by
    refine Yields.insertStructural (hname ▸ by decide) (fun s e _ he => ?_) fun e he => ?_
    · exact sits_holder (isHtmlIn_of_isHtml (by decide) (hname ▸ he))
    · have hsuits : Suits .inTemplate (some e) := suits_template (by decide) (hname ▸ he)
      refine Yields.bind keeps_pushMarker fun _ => Yields.bind keeps_forbidFrameset fun _ => ?_
      exact Yields.setMode (Yields.bind (keeps_pushTemplateMode (by decide)) fun _ => leads_done hsuits)
  refine Yields.ite (fun _ => Yields.bind (fun s hs => (hs.newElement _ tag).1) fun _ => hinsert) fun _ => hinsert

theorem yields_leaveTemplate :
    t.Yields leaveTemplate fun _ s => s.Sane ∧ Suits s.mode (anchor? s.opened) := by
  refine Yields.popThrough fun s _ => Yields.bind keeps_clearToMarker fun _ =>
    Yields.bind keeps_popTemplateMode fun _ s hs => ?_
  exact ⟨(hs.setMode (currentMode s).1).sane, hs.sane.suits_currentMode⟩

theorem leads_endTemplate (h : Suits t.mode t.anchor) : t.Leads endTemplate := by
  refine Yields.bind (Keeps.of_reads fun _ => rfl) fun found => Yields.ite (fun _ s hs => ?_)
    fun _ => leads_done h
  obtain ⟨hsane, hsuits⟩ := yields_leaveTemplate s hs
  exact ⟨hsane, State.settled_of_suits hsuits⟩

theorem leads_endOfTemplates (h : Suits t.mode t.anchor) : t.Leads endOfTemplates := by
  refine Yields.bind (Keeps.of_reads fun _ => rfl) fun found => Yields.ite (fun _ s hs => ?_)
    fun _ => leads_done h
  obtain ⟨hsane, hsuits⟩ := yields_leaveTemplate s hs
  exact ⟨hsane, State.settled_of_suits hsuits⟩

/-! Text elements. -/

theorem leads_insertText (h : Suits t.mode t.anchor) (hname : tag.name ∈ textNames)
    (model : Lexer.TextModel) : t.Leads (insertText tag model) := fun s hs => by
  have hplain : tag.name ∉ placedNames := by
    have hapart : ∀ n ∈ textNames, n ∉ placedNames := by decide
    exact hapart _ hname
  obtain ⟨hopened, -⟩ := hs.insertIn fun (_ : Namespace.html = .html) => hplain
  refine ⟨{ hopened.sane with }, ?_, ?_⟩
  · exact ⟨_, rfl, isHtmlIn_iff.2 ⟨rfl, hname⟩⟩
  · have hsuits : Suits (insertIn .html tag s).2.mode (anchor? (insertIn .html tag s).2.opened) := by
      rwa [hopened.mode, hopened.anchor]
    exact hsuits

end Setting
end DomQuery.Markup.Construction
