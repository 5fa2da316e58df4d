import DomQuery.Markup.Construction
import DomQuery.Proofs.Markup.Construction.Page

/-!
The edits of a whole text. Every item that is read leaves construction in a mode that has its place among
the open elements, and so text goes into a part of a table only as layout or as misplaced there.
-/
namespace DomQuery.Markup.Construction
open OpenElement Setting
variable {s s' : State} {e : OpenElement} {es : List OpenElement} {name : String} {tag : Tag}
  {run : Run} {item : Item}

/-- A state between two steps. -/
structure State.Fit (s : State) : Prop where
  sane : s.Sane
  settled : s.Settled s.mode

theorem lands_step (hs : s.Fit) (hitem : HonestItem item) :
    Lands (stepByMode item s).1 (stepByMode item s).2 := by
  have hlead {m : Build Next} (hm : (of s).Leads m) : Lands (m s).1 (m s).2 := hm s hs.sane.holds
  have hsuits {mode : Mode} (h : s.mode = mode) (htext : mode ≠ .text) (htable : mode ≠ .inTableText) :
      Suits (of s).mode (of s).anchor := hs.settled.suits (h ▸ htext) (h ▸ htable)
  change Lands (step s.mode item s).1 (step s.mode item s).2
  cases h : s.mode with
  | initial => exact hlead (leads_initial h item)
  | beforeHtml => exact hlead (leads_beforeHtml h item)
  | beforeHead => exact hlead (leads_beforeHead h (hsuits h nofun nofun) item)
  | inHead => exact hlead (leads_inHead h (hsuits h nofun nofun) hitem)
  | afterHead => exact hlead (leads_afterHead h (hsuits h nofun nofun) hitem)
  | inBody =>
    have hcontent := hs.settled.suits (h ▸ nofun) (h ▸ nofun)
    rw [h] at hcontent
    exact hlead (leads_inBody (hsuits h nofun nofun) (takes_content (t := of s) hcontent hitem))
  | text => exact lands_inText hs.sane h hs.settled
  | inTable => exact hlead (leads_inTable (hsuits h nofun nofun) hitem fun _ _ _ => h ▸ hsuits h nofun nofun)
  | inTableText =>
    have hresumed : Suits (of s).resumed (of s).anchor := (h ▸ hs.settled : s.Settled .inTableText)
    exact hlead (leads_inTableText h hresumed id hitem)
  | inCaption => exact hlead (leads_inCaption h (hsuits h nofun nofun) hitem)
  | inColumnGroup => exact hlead (leads_inColumnGroup h (hsuits h nofun nofun) hitem)
  | inTableBody => exact hlead (leads_inTableBody h (hsuits h nofun nofun) hitem)
  | inRow => exact hlead (leads_inRow h (hsuits h nofun nofun) hitem)
  | inCell => exact hlead (leads_inCell h (hsuits h nofun nofun) hitem)
  | inTemplate =>
    have htemplate := hs.settled.suits (h ▸ nofun) (h ▸ nofun)
    rw [h] at htemplate
    refine hlead (leads_inTemplate h htemplate (takes_content (fun a ha => ?_) hitem))
    obtain ⟨x, hx, hname⟩ := htemplate
    obtain rfl := Option.some.inj (hx.symm.trans ha)
    exact isHtmlIn_mono (by decide) hname
  | afterBody => exact hlead (leads_afterBody h (hsuits h nofun nofun) hitem)
  | inFrameset => exact hlead (leads_inFrameset h hitem)
  | afterFrameset => exact hlead (leads_afterFrameset h hitem)
  | afterAfterBody => exact hlead (leads_afterAfterBody h (hsuits h nofun nofun) hitem)
  | afterAfterFrameset => exact hlead (leads_afterAfterFrameset h hitem)

/-! Foreign elements. -/

def State.Abroad (s : State) : Prop := ∃ e, s.opened.head? = some e ∧ e.ns ≠ .html

theorem not_structural_of_foreign (h : e.ns ≠ .html) : ¬ structural e := fun hs => h (isHtmlIn_iff.1 hs).1

theorem State.Abroad.not_standsOn {names : List String} (h : s.Abroad) : ¬ StandsOn names s.opened.head? := by
  rintro ⟨x, hx, hname⟩
  obtain ⟨e, he, hns⟩ := h
  obtain rfl := Option.some.inj (he.symm.trans hx)
  exact hns (isHtmlIn_iff.1 hname).1

theorem State.Fit.close (hs : s.Fit) (ha : s.Abroad) (hes : es <:+ s.opened)
    (hanchor : anchor? es = anchor? s.opened) : State.Fit { s with opened := es } := by
  have hclosed := hs.sane.holds.close hes hanchor
  exact ⟨hclosed.sane, (hclosed.lands_same hs.settled fun htext => absurd htext ha.not_standsOn).settled⟩

theorem lands_breakOut (hs : s.Fit) (ha : s.Abroad) (hitem : HonestItem item) :
    Lands (breakOut item s).1 (breakOut item s).2 := by
  refine lands_step (hs.close ha (List.dropWhile_suffix _) (anchor?_dropWhile fun e he => ?_)) hitem
  refine not_structural_of_foreign fun hns => ?_
  simp [hns] at he

theorem lands_endForeign (hs : s.Fit) (ha : s.Abroad) {first : Bool} (hes : es <:+ s.opened)
    (hanchor : anchor? es = anchor? s.opened) (hfirst : first → ∀ e ∈ es.head?, e.ns ≠ .html) :
    Lands (endForeign name first es s).1 (endForeign name first es s).2 := by
  have hdone : Lands .done s := ⟨hs.sane, hs.settled⟩
  induction es generalizing first with
  | nil => cases first <;> exact hdone
  | cons e rest ih =>
    cases rest with
    | nil => cases first <;> exact hdone
    | cons r rest =>
      rw [endForeign]
      case x_2 => exact nofun
      split
      · exact lands_step hs trivial
      rename_i hstays
      have hforeign : e.ns ≠ .html := fun hns => by
        cases first with
        | true => exact hfirst rfl e rfl hns
        | false => simp [hns] at hstays
      have hrest : r :: rest <:+ s.opened := (List.suffix_cons e _).trans hes
      rw [anchor?_cons (not_structural_of_foreign hforeign)] at hanchor
      split
      · have hclosed := hs.close ha hrest hanchor
        exact ⟨hclosed.sane, hclosed.settled⟩
      · exact ih hrest hanchor nofun

theorem lands_stepForeign (hs : s.Fit) (ha : s.Abroad) (hitem : HonestItem item) :
    Lands (stepForeign item s).1 (stepForeign item s).2 := by
  have hsame {s' : State} (hs' : (of s).Holds s') : Lands .done s' :=
    hs'.lands_same hs.settled fun htext => absurd htext ha.not_standsOn
  have hholds : (of s).Holds s := hs.sane.holds
  cases item with
  | null => exact hsame (hholds.appendText (.inr (.inr ha.not_standsOn)))
  | run run =>
    unfold stepForeign
    dsimp only
    split
    · have hforbidden : (of s).Holds (forbidFrameset s).2 := keeps_forbidFrameset s hholds
      exact hsame (hforbidden.appendText (.inr (.inr ha.not_standsOn)))
    · exact hsame (hholds.appendText (.inr (.inr ha.not_standsOn)))
  | comment text => exact hsame (keeps_appendComment text s hholds)
  | startTag tag =>
    unfold stepForeign
    dsimp only
    split
    · exact lands_breakOut hs ha hitem
    · obtain ⟨e, he, hns⟩ := ha
      have hcurrent : ((s.opened.head?.map (·.ns)).getD .html) ≠ .html := by rwa [he]
      exact hsame (keeps_insertForeign hcurrent tag s hholds)
  | endTag name =>
    unfold stepForeign
    dsimp only
    split
    · exact lands_breakOut hs ha hitem
    · refine lands_endForeign hs ha List.suffix_rfl rfl fun _ e he => ?_
      obtain ⟨x, hx, hns⟩ := ha
      obtain rfl := Option.some.inj (hx.symm.trans he)
      exact hns
  | endOfFile => exact hsame hholds

/-! Items and tokens. -/

theorem abroad_of_isForeign (h : isForeign item s.opened.head?) : s.Abroad := by
  cases hcurrent : s.opened.head? with
  | none =>
    rw [hcurrent] at h
    cases h
  | some e =>
    refine ⟨e, hcurrent, fun hns => ?_⟩
    simp [isForeign, hcurrent, hns] at h

/-- What is done between two steps of which each may be anything. -/
def KeepsFit {α : Type} (m : Build α) : Prop := ∀ s, s.Fit → (m s).2.Fit

theorem KeepsFit.bind {α β : Type} {m : Build α} {f : α → Build β} (hm : KeepsFit m) (hf : ∀ a, KeepsFit (f a)) :
    KeepsFit (m >>= f) := fun s hs => hf _ _ (hm s hs)

theorem KeepsFit.pure {α : Type} (a : α) : KeepsFit (Pure.pure a) := fun _ => id

def follow (item : Item) (bound : Nat) : Next → Build Lexer.Reading
  | .done => return {}
  | .read reading => return reading
  | .reprocess mode => do
    setMode mode
    process item bound

/-- An item is taken through the modes it calls for. -/
theorem keepsFit_process (hitem : HonestItem item) (bound : Nat) : KeepsFit (process item bound) := by
  induction bound with
  | zero => exact KeepsFit.pure _
  | succ bound ih =>
    intro s hs
    have hgo (next : Next) (s : State) (h : Lands next s) : (follow item bound next s).2.Fit := by
      cases next with
      | done => exact ⟨h.sane, h.settled⟩
      | read reading => exact ⟨h.sane, h.settled⟩
      | reprocess mode =>
        exact ih { s with mode := mode } ⟨{ h.sane with }, h.settled.congr rfl rfl id⟩
    rw [process]
    change ((if isForeign item s.opened.head? then _ else _ : Build Lexer.Reading) s).2.Fit
    split
    · rename_i hforeign
      exact hgo _ _ (lands_stepForeign hs (abroad_of_isForeign hforeign) hitem)
    · exact hgo _ _ (lands_step hs hitem)

theorem keepsFit_processItem (hitem : HonestItem item) : KeepsFit (processItem item) := fun s hs =>
  keepsFit_process hitem _ s hs

def Pending (run : Run) : Prop := run.isBlank → ∀ c ∈ run.text, isRunBlank c

theorem Pending.honest (h : Pending run) : Run.Honest { run with text := run.text.reverse } := fun hblank => by
  rw [IsLayout, String.toList_ofList]
  exact fun c hc => h hblank c (List.mem_reverse.1 hc)

theorem honest_runsFrom {pending : Option Run} (h : ∀ run ∈ pending, Pending run) (cs : List Char) :
    ∀ run ∈ runsFrom pending cs, run.Honest := by
  have hsingle (c : Char) : ∀ run ∈ some (⟨isRunBlank c, [c]⟩ : Run), Pending run := by
    rintro _ ⟨⟩ hblank
    exact List.forall_mem_singleton.2 hblank
  induction cs generalizing pending with
  | nil =>
    cases pending with
    | none => exact nofun
    | some run => exact List.forall_mem_singleton.2 (h run rfl).honest
  | cons c cs ih =>
    cases pending with
    | none => exact ih (hsingle c)
    | some run =>
      rw [runsFrom]
      split
      · rename_i hsame
        refine ih ?_
        rintro _ ⟨⟩ hblank
        exact List.forall_mem_cons.2 ⟨(eq_of_beq hsame).trans hblank, h run rfl hblank⟩
      · exact List.forall_mem_cons.2 ⟨(h run rfl).honest, ih (hsingle c)⟩

theorem keepsFit_forM {α : Type} {f : α → Build Unit} {as : List α} (h : ∀ a ∈ as, KeepsFit (f a)) :
    KeepsFit (as.forM f) := by
  induction as with
  | nil => exact KeepsFit.pure ()
  | cons a as ih =>
    obtain ⟨ha, has⟩ := List.forall_mem_cons.1 h
    exact ha.bind fun _ => ih has

theorem keepsFit_processText (text : List Char) (dropsLineFeed : Bool) :
    KeepsFit (processText text dropsLineFeed) := by
  refine keepsFit_forM fun run hrun => ?_
  have hitem : HonestItem (.run run) := honest_runsFrom (fun x h => absurd h (Option.not_mem_none x)) _ run hrun
  exact (keepsFit_processItem hitem).bind fun _ => KeepsFit.pure ()

theorem keepsFit_processToken (token : Token) : KeepsFit (processToken token) := by
  refine KeepsFit.bind (fun _ => id) fun s => KeepsFit.bind (fun s hs => ?_) fun _ => ?_
  · exact ⟨{ hs.sane with }, hs.settled.congr rfl rfl id⟩
  cases token with
  | doctype doctype =>
    refine KeepsFit.bind (fun _ => id) fun s => ?_
    dsimp only
    split
    · exact KeepsFit.bind (fun s hs => ⟨{ hs.sane with }, trivial⟩) fun _ => KeepsFit.pure _
    · exact KeepsFit.pure _
  | startTag tag => exact keepsFit_processItem trivial
  | endTag name => exact keepsFit_processItem trivial
  | comment text => exact keepsFit_processItem trivial
  | text text => exact (keepsFit_processText text _).bind fun _ => KeepsFit.pure _
  | null => exact keepsFit_processItem trivial
  | fault => exact KeepsFit.pure _
  | endOfFile => exact keepsFit_processItem trivial

theorem keepsFit_processTokens (reading : Lexer.Reading) (tokens : List Token) :
    KeepsFit (processTokens reading tokens) := by
  induction tokens generalizing reading with
  | nil => exact KeepsFit.pure _
  | cons token rest ih => exact (keepsFit_processToken token).bind fun reading => ih reading

theorem fit_readFrom (hs : s.Fit) (bound : Nat) (reading : Lexer.Reading) (cs : List Char) :
    (readFrom bound reading cs s).Fit := by
  induction bound generalizing reading cs s with
  | zero => exact hs
  | succ bound ih =>
    cases cs with
    | nil => exact hs
    | cons c cs => exact ih (keepsFit_processTokens _ _ s hs) _ _

theorem fit_start : State.Fit {} where
  sane := {
    nested := trivial
    count := rfl
    opened := nofun
    head := nofun
    form := nofun
    formatting := nofun
    templateModes := nofun
    tableText := nofun
    edits := fun before edit h => absurd (List.prefix_nil.1 h) (by simp) }
  settled := trivial

/-- No edit puts text that is more than layout into a part of a table, unless as misplaced in the table, and
none moves children into a part of one or out of it. -/
theorem aptThroughout_edits (markup : String) : AptThroughout (edits markup) := by
  have hitem : HonestItem .endOfFile := trivial
  rw [edits]
  exact (keepsFit_processItem hitem _ (fit_readFrom fit_start _ _ _)).sane.edits

end DomQuery.Markup.Construction
