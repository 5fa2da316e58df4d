import DomQuery.Proofs.Markup.Construction.Landing

/-!
The rules for content. They open and close elements above the innermost structural element; where they
open a table or a template, or close a template, they go on in a mode that suits what is open then.
-/
namespace DomQuery.Markup.Construction
open OpenElement
variable {s : State} {t : Setting} {e : OpenElement} {outer : List OpenElement} {names : List String}
  {name : String} {tag : Tag} {run : Run} {wanted : OpenElement → Bool} {β : Type} {post : β → State → Prop}

namespace Setting

theorem leads_startHeadTag (h : Suits t.mode t.anchor) : t.Leads (startHeadTag tag) := by
  unfold startHeadTag
  split
  case h_1 hname | h_2 hname | h_3 hname | h_4 hname => exact leads_insertText h (hname ▸ by decide) _
  case h_5 hname => exact leads_insertTemplate hname
  case h_6 =>
    refine Yields.bind (keeps_insertClosed tag) fun _ => ?_
    split
    · exact leads_read h _
    · exact leads_done h

/-! Closing. -/

theorem not_structural_of_isHtmlIn (h : ∀ n ∈ names, n ∉ structuralNames) (he : e.isHtmlIn names) :
    ¬ structural e := not_isHtmlIn h he

theorem not_isHtmlIn_of_isHtml (h : name ∉ names) (he : e.isHtml name) : ¬ e.isHtmlIn names := fun hin =>
  h ((isHtml_iff.1 he).2 ▸ (isHtmlIn_iff.1 hin).2)

theorem keeps_closeWithImplied (hname : name ∉ impliedEnds) (hs : t.Holds s)
    (h : Finds (·.isHtml name) s.opened outer) : t.Holds (closeWithImplied name s).2 :=
  hs.closeThrough h (by decide) fun _ he => not_isHtmlIn_of_isHtml hname he

theorem closeExcept (hs : t.Holds s) (h : Finds (·.isHtml name) s.opened outer) :
    t.Holds ((do closeImpliedExcept name; popThroughNamed name) s).2 := by
  have hplain : ∀ n ∈ impliedEnds, n ∉ structuralNames := by decide
  refine hs.closeThrough h (fun n hn => hplain n (List.mem_filter.1 hn).1) fun e he => ?_
  exact not_isHtmlIn_of_isHtml (fun hn => by simp at hn) he

theorem Yields.closeFound {f : Unit → Build β} {m' : Build β} (hplain : name ∉ structuralNames)
    (hname : name ∉ impliedEnds) (hf : t.Yields (f ()) post) (hm' : t.Yields m' post) :
    t.Yields (do if ← inScope (·.isHtml name) defaultScope then closeWithImplied name >>= f else m') post :=
  Yields.ifInScope (fun _ he => not_structural_of_isHtml hplain he) (fun _ => id)
    (fun _ _ hs h => hf _ (keeps_closeWithImplied hname hs h)) hm'

theorem Yields.closeSelect {f : Unit → Build β} {m' : Build β} (hf : t.Yields (f ()) post)
    (hm' : t.Yields m' post) :
    t.Yields (do if ← selectInScope then popThroughNamed "select" >>= f else m') post :=
  Yields.ifInScope (fun _ he => not_structural_of_isHtml (by decide) he) (fun _ => id)
    (fun _ _ hs h => hf _ (hs.popThrough h)) hm'

theorem keeps_insertItem {siblings : List String} (hname : tag.name ∉ placedNames)
    (hsiblings : ∀ n ∈ siblings, n ∉ structuralNames) : t.Keeps (insertItem tag siblings) := by
  have hopen : t.Keeps (do closeOpenParagraph; insert tag) :=
    Yields.bind keeps_closeOpenParagraph fun _ => keeps_insert hname
  refine Yields.bind keeps_forbidFrameset fun _ s hs => ?_
  let stops (e : OpenElement) : Bool := e.isHtmlIn siblings ||
    (special e && !e.isHtmlIn ["address", "div", "p"])
  extract_lets goOn
  rw [bind_run, opened_run]
  dsimp only
  cases hfound : s.opened.find? stops with
  | none => exact hopen s hs
  | some e =>
    dsimp only
    split
    · rename_i hsibling
      obtain ⟨-, within, outer, hopened, hwithin⟩ := List.find?_eq_some_iff_append.1 hfound
      obtain ⟨hns, hsiblings'⟩ := isHtmlIn_iff.1 hsibling
      have hfinds : Finds (·.isHtml e.name) s.opened outer := by
        refine ⟨within, e, hopened, isHtml_iff.2 ⟨hns, rfl⟩, not_isHtmlIn hsiblings hsibling, fun x hx => ?_⟩
        have hpassed : ¬ stops x := by simpa using hwithin x hx
        refine ⟨fun hsame => hpassed ?_, fun hstructural => hpassed ?_⟩
        · exact Bool.or_eq_true_iff.2 (.inl (isHtmlIn_of_isHtml hsiblings' hsame))
        · have hother : ¬ x.isHtmlIn ["address", "div", "p"] := not_isHtmlIn (by decide) hstructural
          exact Bool.or_eq_true_iff.2 (.inr (Bool.and_eq_true_iff.2
            ⟨isHtmlIn_mono (by decide) hstructural, by simpa using hother⟩))
      exact hopen _ (closeExcept hs hfinds)
    · exact hopen s hs

/-! Opening. -/

theorem keeps_insertForeign {ns : Namespace} (hns : ns ≠ .html) (tag : Tag) : t.Keeps (insertForeign ns tag) :=
  Yields.ite (fun _ => Yields.bind (keeps_insertVoid _ _) fun _ => Keeps.pure ()) fun _ =>
    Yields.bind (fun _ hs => (hs.insertIn fun h => absurd h hns).1) fun _ => Keeps.pure ()

theorem Holds.setForm (hs : t.Holds s) {form : Option OpenElement}
    (hform : ∀ e ∈ form, s.Knows e ∧ e.isHtml "form") : t.Holds { s with form } :=
  { hs with sane := { hs.sane with form := hform } }

theorem Yields.takeForm {m : Build OpenElement} {f : OpenElement → Build Next}
    (hm : t.Yields m fun form s => t.Holds s ∧ s.Knows form ∧ form.isHtml "form")
    (hf : ∀ (t' : Setting) form, Suits t'.mode t'.anchor →
      t'.Keeps (modify fun s => { s with form := some form }) → t'.Leads (f form))
    (h : Suits t.mode t.anchor) : t.Leads (m >>= f) := by
  refine Yields.bind_now _ hm (fun _ _ hform => hform.1) fun form s hform => hf _ form h fun s' hs' => ?_
  refine hs'.setForm fun e he => ?_
  obtain rfl := Option.some.inj he
  exact hform.2.imp_left fun hknows => hknows.mono hs'.known

theorem keeps_closeOption : t.Keeps closeOption :=
  Yields.ifCurrent (fun _ he => not_structural_of_isHtml (by decide) he) (fun _ hs h => hs.pop h) (Keeps.pure ())

theorem leads_startFormTag (h : Suits t.mode t.anchor) (hname : tag.name ∉ placedNames) :
    t.Leads (startFormTag tag) := by
  have hinsert : t.Leads (do reconstructFormatting; insert tag; return .done) :=
    Yields.bind keeps_reconstructFormatting fun _ => Yields.bind (keeps_insert hname) fun _ => leads_done h
  have hactive : t.Leads (do reconstructFormatting; insert tag; forbidFrameset; return .done) :=
    Yields.bind keeps_reconstructFormatting fun _ => Yields.bind (keeps_insert hname) fun _ =>
      Yields.bind keeps_forbidFrameset fun _ => leads_done h
  have hplain : ∀ n ∈ impliedEnds, n ∉ structuralNames := by decide
  unfold startFormTag
  split
  case h_1 hform =>
    refine Yields.bind (Keeps.of_reads fun _ => rfl) fun inTemplate => Yields.get fun s hs => ?_
    refine Yields.ite (fun _ => leads_done h) fun _ => Yields.bind keeps_closeOpenParagraph fun _ => ?_
    refine Yields.takeForm (fun s' hs' => ?_) (fun t' form h' hform => ?_) h
    · obtain ⟨hnext, hknows, heq⟩ := hs'.insertIn fun (_ : Namespace.html = .html) => hname
      exact ⟨hnext, hknows, heq ▸ hform ▸ isHtml_iff.2 ⟨rfl, rfl⟩⟩
    · exact Yields.ite (fun _ => Yields.bind hform fun _ => leads_done h') fun _ => leads_done h'
  case h_2 => exact Yields.closeFound (by decide) (by decide) hactive hactive
  case h_3 =>
    have hclosed : t.Leads (do
        reconstructFormatting
        insertClosed tag
        if !isHidden tag then forbidFrameset
        return .done) :=
      Yields.bind keeps_reconstructFormatting fun _ => Yields.bind (keeps_insertClosed tag) fun _ =>
        Yields.ite (fun _ => Yields.bind keeps_forbidFrameset fun _ => leads_done h) fun _ => leads_done h
    exact Yields.closeSelect hclosed hclosed
  case h_4 htextarea =>
    refine Yields.bind keeps_dropNextLineFeed fun _ => Yields.bind keeps_forbidFrameset fun _ => ?_
    exact leads_insertText h (htextarea ▸ by decide) _
  case h_5 => exact Yields.closeSelect (leads_done h) hactive
  case h_6 | h_7 =>
    refine Yields.bind (Keeps.of_reads fun _ => rfl) fun found => Yields.ite
      (fun _ => Yields.bind (keeps_closeImplied fun n hn => ?_) fun _ => hinsert)
      fun _ => Yields.bind keeps_closeOption fun _ => hinsert
    first
      | exact hplain n hn
      | exact hplain n (List.mem_filter.1 hn).1

theorem Yields.firstIf {test : Build Bool} {m : Build Unit} {f : Unit → Build β} (htest : ∀ s, (test s).2 = s)
    (hm : t.Keeps m) (hf : t.Yields (f ()) post) : t.Yields (do if ← test then m >>= f else f ()) post :=
  Yields.bind (Keeps.of_reads htest) fun _ => Yields.ite (fun _ => Yields.bind hm fun _ => hf) fun _ => hf

theorem Yields.keepRoot {root : OpenElement} {es : List OpenElement} {f : Unit → Build β} (hs : t.Holds s)
    (hopened : s.opened.reverse = root :: es)
    (hf : Yields { t with anchor := anchor? [root], known := s.labels } (f ()) post) :
    Yields { t with known := s.labels } (Construction.setOpened [root] >>= f) post := by
  have hroot : [root] <:+ s.opened := by
    rw [← List.reverse_prefix, hopened]
    exact ⟨es, rfl⟩
  refine Yields.setOpened (t := { t with known := s.labels }) (fun s' hs' => ?_) hf
  exact ⟨hs.sane.nested.suffix hroot, fun e he => (hs.sane.opened e (hroot.subset he)).mono hs'.known⟩

theorem leads_openTable (hname : tag.name = "table") : t.Leads (do
    insert tag
    forbidFrameset
    Construction.setMode .inTable
    return .done) := by
  refine Yields.insertStructural (hname ▸ by decide) (fun s e _ he => ?_) fun e he => ?_
  · exact sits_holder (isHtmlIn_of_isHtml (by decide) (hname ▸ he))
  · have hsuits : Suits .inTable (some e) := ⟨e, rfl, isHtmlIn_of_isHtml (by decide) (hname ▸ he)⟩
    exact Yields.bind keeps_forbidFrameset fun _ => leads_setMode hsuits

theorem leads_startBodyTag (h : Suits t.mode t.anchor) : t.Leads (startBodyTag tag) := by
  have hdone : t.Leads (return .done) := leads_done h
  have hplain : ∀ n ∈ impliedEnds, n ∉ structuralNames := by decide
  unfold startBodyTag
  dsimp only
  split
  · exact leads_startHeadTag h
  rename_i hhead
  split
  · rename_i hblock
    have hapart : ∀ n ∈ blocks, n ∉ placedNames := by decide
    refine Yields.bind keeps_closeOpenParagraph fun _ => Yields.bind (keeps_insert ?_) fun _ => hdone
    exact hapart _ (List.contains_iff_mem.1 hblock)
  split
  · rename_i hheading
    have hapart : ∀ n ∈ headings, n ∉ placedNames := by decide
    have hinsert : t.Leads (do insert tag; return .done) :=
      Yields.bind (keeps_insert (hapart _ (List.contains_iff_mem.1 hheading))) fun _ => hdone
    refine Yields.bind keeps_closeOpenParagraph fun _ => Yields.ifCurrent (fun e he => ?_)
      (fun _ hs hplain => hinsert _ (hs.pop hplain)) hinsert
    exact not_structural_of_isHtmlIn (by decide) he
  split
  · rename_i hformatting
    refine Yields.bind keeps_reconstructFormatting fun _ => Yields.bind (keeps_insertFormatting ?_) fun _ => hdone
    exact List.mem_append_left _ (List.contains_iff_mem.1 hformatting)
  split
  · exact hdone
  rename_i htable
  split
  case h_1 => exact hdone
  case h_2 =>
    refine Yields.bind (Keeps.of_reads fun _ => rfl) fun es => ?_
    split
    · exact Yields.bind (Keeps.of_reads fun _ => rfl) fun _ =>
        Yields.ite (fun _ => Yields.bind keeps_forbidFrameset fun _ => hdone) fun _ => hdone
    · exact hdone
  case h_3 hname =>
    refine Yields.get fun s hs => ?_
    split
    · rename_i root body rest hopened
      refine Yields.ite (fun _ => Yields.bind (keeps_detach body.handle) fun _ => ?_) fun _ => leads_done h
      refine Yields.keepRoot hs hopened ?_
      exact Yields.bind (keeps_insert (hname ▸ by decide)) fun _ => leads_setMode trivial
    · exact leads_done h
  case h_4 hname | h_5 hname =>
    refine Yields.bind keeps_closeOpenParagraph fun _ => Yields.bind (keeps_insert (hname ▸ by decide)) fun _ => ?_
    exact Yields.bind keeps_dropNextLineFeed fun _ => Yields.bind keeps_forbidFrameset fun _ => hdone
  case h_6 hname | h_7 hname | h_8 hname =>
    exact Yields.bind (keeps_insertItem (hname ▸ by decide) (by decide)) fun _ => hdone
  case h_9 hname =>
    refine Yields.bind keeps_closeOpenParagraph fun _ => Yields.bind (keeps_insert (hname ▸ by decide)) fun _ => ?_
    exact leads_read h _
  case h_10 hname | h_11 hname | h_12 hname | h_13 hname | h_14 hname | h_15 hname | h_16 hname =>
    exact leads_startFormTag h (hname ▸ by decide)
  case h_17 hname =>
    refine Yields.bind keeps_closeOpenLink fun _ => Yields.bind keeps_reconstructFormatting fun _ => ?_
    exact Yields.bind (keeps_insertFormatting (hname ▸ by decide)) fun _ => hdone
  case h_18 hname =>
    have hinsert : t.Leads (do insertFormatting tag; return .done) :=
      Yields.bind (keeps_insertFormatting (hname ▸ by decide)) fun _ => hdone
    refine Yields.bind keeps_reconstructFormatting fun _ => Yields.bind (Keeps.of_reads fun _ => rfl) fun _ => ?_
    refine Yields.ite (fun _ => Yields.bind (keeps_closeFormatting (by decide)) fun _ => ?_) fun _ => hinsert
    exact Yields.bind keeps_reconstructFormatting fun _ => hinsert
  case h_19 hname | h_20 hname | h_21 hname =>
    refine Yields.bind keeps_reconstructFormatting fun _ => Yields.bind (keeps_insert (hname ▸ by decide)) fun _ => ?_
    exact Yields.bind keeps_pushMarker fun _ => Yields.bind keeps_forbidFrameset fun _ => hdone
  case h_22 hname =>
    refine Yields.get fun s hs => ?_
    have htable := leads_openTable (t := { t with known := s.labels }) hname
    exact Yields.ite (fun _ => Yields.bind keeps_closeOpenParagraph fun _ => htable) fun _ => htable
  case h_23 | h_24 | h_25 | h_26 | h_27 | h_28 =>
    refine Yields.bind keeps_reconstructFormatting fun _ => Yields.bind (keeps_insertClosed tag) fun _ => ?_
    exact Yields.bind keeps_forbidFrameset fun _ => hdone
  case h_29 | h_30 | h_31 => exact Yields.bind (keeps_insertClosed tag) fun _ => hdone
  case h_32 =>
    refine Yields.bind keeps_closeOpenParagraph fun _ => Yields.firstIf (fun _ => rfl) (keeps_closeImplied hplain) ?_
    exact Yields.bind (keeps_insertClosed tag) fun _ => Yields.bind keeps_forbidFrameset fun _ => hdone
  case h_33 hname =>
    refine Yields.bind keeps_closeOpenParagraph fun _ => Yields.bind keeps_reconstructFormatting fun _ => ?_
    exact Yields.bind keeps_forbidFrameset fun _ => leads_insertText h (hname ▸ by decide) _
  case h_34 hname => exact Yields.bind keeps_forbidFrameset fun _ => leads_insertText h (hname ▸ by decide) _
  case h_35 hname | h_36 hname => exact leads_insertText h (hname ▸ by decide) _
  case h_37 hname | h_38 hname =>
    refine Yields.firstIf (fun _ => rfl) (keeps_closeImplied hplain) ?_
    exact Yields.bind (keeps_insert (hname ▸ by decide)) fun _ => hdone
  case h_39 hname | h_40 hname =>
    refine Yields.firstIf (fun _ => rfl) (keeps_closeImplied fun n hn => hplain n (List.mem_filter.1 hn).1) ?_
    exact Yields.bind (keeps_insert (hname ▸ by decide)) fun _ => hdone
  case h_41 => exact Yields.bind (keeps_insertForeign (by decide) tag) fun _ => hdone
  case h_42 => exact Yields.bind (keeps_insertForeign (by decide) tag) fun _ => hdone
  case h_43 =>
    refine Yields.bind keeps_reconstructFormatting fun _ => Yields.bind (keeps_insert fun hplaced => ?_) fun _ => hdone
    simp only [placedNames, structuralNames, tableOnly, headTags, List.mem_append, List.mem_cons,
      List.contains_eq_mem, decide_eq_true_eq, List.not_mem_nil, or_false] at hplaced hhead htable
    grind

theorem leads_startInBody (h : Suits t.mode t.anchor) : t.Leads (startInBody tag) := leads_startBodyTag h

/-! End tags. -/

theorem leads_endForm (h : Suits t.mode t.anchor) : t.Leads endForm := by
  have hdone : t.Leads (return .done) := leads_done h
  refine Yields.bind (Keeps.of_reads fun _ => rfl) fun inTemplate => Yields.ite (fun _ => ?_) fun _ => ?_
  · exact Yields.closeFound (by decide) (by decide) hdone hdone
  refine Yields.get fun s hs => Yields.bind (fun _ hs => hs.setForm nofun) fun _ => ?_
  dsimp only
  split
  · exact leads_done h
  · rename_i form hform
    obtain ⟨hknows, hname⟩ := hs.sane.form form hform
    refine Yields.bind (Keeps.of_reads fun _ => rfl) fun _ => Yields.ite (fun _ => ?_) fun _ => leads_done h
    refine Yields.bind (keeps_closeImplied (by decide)) fun _ => Yields.bind (fun s' hs' => ?_) fun _ => leads_done h
    have hlabel : s'.labels[form.handle]? = some (.html, "form") := by
      rw [← (isHtml_iff.1 hname).1, ← (isHtml_iff.1 hname).2]
      exact getElem?_mono hs'.known hknows
    exact hs'.removeOpen hlabel (by decide)

theorem anchor_of_body (hs : t.Holds s) (h : Finds (·.isHtml "body") s.opened outer) :
    ∀ a ∈ t.anchor, a.isHtml "html" := by
  rw [← hs.anchor, ← h.anchor?_eq]
  obtain ⟨within, e, hopened, hname, -⟩ := h
  have hn : Nested (e :: outer) := hs.sane.nested.suffix ⟨within, hopened.symm⟩
  exact hn.1.page (isHtmlIn_of_isHtml (by decide) hname)

theorem leads_endInBody (h : Suits t.mode t.anchor)
    (hname : name ∈ ["template", "html"] ∨ ∀ a ∈ t.anchor, structural a → ¬ a.isHtml name) :
    t.Leads (endInBody name) := by
  have hdone : t.Leads (return .done) := leads_done h
  have hafter (s outer) (hs : t.Holds s) (hbody : Finds (·.isHtml "body") s.opened outer) :
      Suits .afterBody t.anchor := fun a ha =>
    isHtmlIn_of_isHtml (by decide) (anchor_of_body hs hbody a ha)
  unfold endInBody
  split
  · rename_i hblock
    have hapart : ∀ n ∈ blockEnds, n ∉ structuralNames ∧ n ∉ impliedEnds := by decide
    obtain ⟨hplain, himplied⟩ := hapart _ (List.contains_iff_mem.1 hblock)
    exact Yields.closeFound hplain himplied hdone hdone
  split
  · refine Yields.ifInScope (fun e he => not_structural_of_isHtmlIn (by decide) he) (fun _ => id)
      (fun s outer hs houter => hdone _ ?_) hdone
    exact hs.closeThrough houter (by decide) fun e he => not_isHtmlIn (by decide) he
  split
  · rename_i hformatting
    refine Yields.bind (keeps_closeFormatting ?_) fun _ => hdone
    simpa [formattingTags, or_assoc] using hformatting
  split
  case h_1 => exact leads_endTemplate h
  case h_2 =>
    exact Yields.ifInScope (fun e he => not_structural_of_isHtml (by decide) he) (fun _ => id)
      (fun s outer hs houter => leads_setMode (hafter s outer hs houter) s hs) hdone
  case h_3 =>
    exact Yields.ifInScope (fun e he => not_structural_of_isHtml (by decide) he) (fun _ => id)
      (fun s outer hs houter => leads_reprocess (hafter s outer hs houter) s hs) hdone
  case h_4 => exact leads_endForm h
  case h_5 =>
    have hclose (s outer) (hs : t.Holds s) (hfound : Finds (·.isHtml "p") s.opened outer) :
        Lands .done (closeParagraph s).2 := hdone _ (closeExcept hs hfound)
    refine Yields.unlessInScope (fun e he => not_structural_of_isHtml (by decide) he)
      (fun e he => by rw [buttonScope, he]; rfl) hclose fun s hs => ?_
    exact hclose _ _ (keeps_insert (by decide) s hs)
      ⟨[], _, rfl, rfl, not_structural_of_isHtml (by decide) (rfl : isHtml "p" _),
        fun _ hmem => absurd hmem List.not_mem_nil⟩
  case h_6 =>
    exact Yields.ifInScope (fun e he => not_structural_of_isHtml (by decide) he)
      (fun e he => by rw [listItemScope, he]; rfl) (fun s outer hs hfound => hdone _ (closeExcept hs hfound)) hdone
  case h_7 | h_8 =>
    exact Yields.ifInScope (fun e he => not_structural_of_isHtml (by decide) he) (fun _ => id)
      (fun s outer hs hfound => hdone _ (closeExcept hs hfound)) hdone
  case h_9 | h_10 | h_11 =>
    exact Yields.closeFound (by decide) (by decide) (Yields.bind keeps_clearToMarker fun _ => hdone) hdone
  case h_12 => exact leads_startInBody h
  case h_13 =>
    refine Yields.bind (keeps_closeNearest (hname.resolve_left fun hin => ?_)) fun _ => hdone
    simp at hin
    grind

/-! Items. -/

def HonestItem : Item → Prop
  | .run run => run.Honest
  | _ => True

/-- What the rules for content can take: text must not come to stand in a part of a table, and an end tag
must not be for the innermost structural element. -/
def Takes (t : Setting) : Item → Prop
  | .run run => run.Honest ∧ (run.isBlank ∨ t.fosters ∨ ¬ StandsOn tableParts t.anchor)
  | .endTag name => name ∈ ["template", "html"] ∨ ∀ a ∈ t.anchor, structural a → ¬ a.isHtml name
  | _ => True

theorem takes_content (h : ∀ a ∈ t.anchor, a.isHtmlIn ["html", "template"]) {item : Item}
    (hitem : HonestItem item) : t.Takes item := by
  cases item with
  | run run =>
    refine ⟨hitem, .inr (.inr ?_)⟩
    rintro ⟨a, ha, hrow⟩
    exact not_isHtmlIn (by decide) (h a ha) hrow
  | endTag name =>
    by_cases hname : name ∈ ["template", "html"]
    · exact .inl hname
    · refine .inr fun a ha _ hsame => hname ?_
      have hin := (isHtmlIn_iff.1 (h a ha)).2
      rw [(isHtml_iff.1 hsame).2] at hin
      simpa [or_comm] using hin
  | _ => trivial

theorem Yields.textInBody {post : Next → State → Prop} (h : t.Takes (.run run))
    (hdone : t.Yields (return .done) post) : t.Yields (textInBody run) post := by
  have happend : t.Yields (do appendText run.text; return .done) post := by
    refine Yields.bind (keeps_appendText ?_) fun _ => hdone
    exact h.2.imp_left h.1
  exact Yields.bind keeps_reconstructFormatting fun _ =>
    Yields.ite (fun _ => Yields.bind keeps_forbidFrameset fun _ => happend) fun _ => happend

theorem leads_inBody (h : Suits t.mode t.anchor) {item : Item} (hitem : t.Takes item) :
    t.Leads (inBody item) := by
  cases item with
  | null => exact leads_done h
  | run run => exact Yields.textInBody hitem (leads_done h)
  | comment text => exact Yields.bind (keeps_appendComment text) fun _ => leads_done h
  | startTag tag => exact leads_startInBody h
  | endTag name => exact leads_endInBody h hitem
  | endOfFile =>
    exact Yields.get fun _ _ => Yields.ite (fun _ => leads_done h) fun _ => leads_endOfTemplates h

theorem leads_inTemplate (h : t.mode = .inTemplate) (hanchor : Suits .inTemplate t.anchor) {item : Item}
    (hitem : t.Takes item) : t.Leads (inTemplate item) := by
  have hsuits : Suits t.mode t.anchor := h ▸ hanchor
  cases item with
  | null => exact leads_done hsuits
  | run run => exact leads_inBody hsuits hitem
  | comment text => exact leads_inBody hsuits hitem
  | endOfFile => exact leads_endOfTemplates hsuits
  | endTag name => exact Yields.ite (fun _ => leads_endTemplate hsuits) fun _ => leads_done hsuits
  | startTag tag =>
    refine Yields.ite (fun _ => leads_startHeadTag hsuits) fun _ => ?_
    have hmode {mode : Mode} (hmode : mode ∈ modesOfTemplates) : t.Leads (do
        popTemplateMode
        pushTemplateMode mode
        return .reprocess mode) := by
      refine Yields.bind keeps_popTemplateMode fun _ => Yields.bind (keeps_pushTemplateMode hmode) fun _ => ?_
      obtain ⟨a, ha, hname⟩ := hanchor
      refine leads_reprocess (ha ▸ suits_template hmode ?_)
      rw [isHtmlIn_iff, List.mem_singleton] at hname
      exact isHtml_iff.2 hname
    split
    all_goals exact hmode (by decide)

end Setting
end DomQuery.Markup.Construction
