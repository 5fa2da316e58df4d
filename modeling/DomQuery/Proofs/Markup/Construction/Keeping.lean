import DomQuery.Markup.Construction.Body
import DomQuery.Proofs.Markup.Construction.Stack
import DomQuery.Text.Blank

/-!
What construction keeps while content is read: how the open elements stand on one another, under which
handles elements are known, and that no text but layout goes into a part of a table unless as misplaced.
-/
namespace DomQuery.Markup
variable {known more : List (Namespace × String)} {handle : Handle}

/-- Name space and name of what an edit makes; a comment has no name. -/
def Edit.label? : Edit → Option (Namespace × String)
  | .element tag ns _ => some (ns, tag)
  | .comment _ => some (.html, "")
  | _ => none

def labels (edits : List Edit) : List (Namespace × String) := edits.filterMap Edit.label?

theorem labels_append (before after : List Edit) : labels (before ++ after) = labels before ++ labels after :=
  List.filterMap_append ..

theorem labels_concat (edits : List Edit) (edit : Edit) :
    labels (edits ++ [edit]) = labels edits ++ edit.label?.toList := by
  rw [labels_append, labels, labels, List.filterMap_cons, List.filterMap_nil]
  cases edit.label? <;> rfl

theorem getElem?_mono (h : known <+: more) {label : Namespace × String}
    (hlabel : known[handle]? = some label) : more[handle]? = some label := by
  obtain ⟨rest, rfl⟩ := h
  rw [List.getElem?_append_left (List.getElem?_eq_some_iff.1 hlabel).1, hlabel]

/-- Nothing but blanks of ASCII, as between the tags of a table. -/
def IsLayout (text : String) : Prop := ∀ c ∈ text.toList, Text.isAsciiBlank c

instance (text : String) : Decidable (IsLayout text) :=
  decidable_of_iff (text.toList.all Text.isAsciiBlank) List.all_eq_true

/-- A known node that is no part of an HTML table. -/
def Unbound (known : List (Namespace × String)) (handle : Handle) : Prop :=
  ∃ label, known[handle]? = some label ∧ (label.1 = .html → label.2 ∉ Construction.tableParts)

/-- Text goes into a part of a table only if it is layout, unless it is handed over as misplaced in the
table, and no text goes before a sibling; children are moved neither out of a part nor into one. -/
def Edit.Apt (known : List (Namespace × String)) : Edit → Prop
  | .insert (.inside (some handle)) (.text text) => ∃ label, known[handle]? = some label ∧
      (label.1 = .html → label.2 ∈ Construction.tableParts → IsLayout text)
  | .insert (.misplaced table _) (.text _) => known[table]? = some (.html, "table")
  | .insert (.before _) (.text _) => False
  | .moveChildren source target => Unbound known source ∧ Unbound known target
  | _ => True

theorem apt_node (point : InsertionPoint) (node : Handle) : (Edit.insert point (.node node)).Apt known := by
  cases point with
  | inside parent => cases parent <;> trivial
  | before | misplaced => trivial

def AptThroughout (edits : List Edit) : Prop :=
  ∀ before edit, before ++ [edit] <+: edits → edit.Apt (labels before)

theorem AptThroughout.concat {edits : List Edit} {edit : Edit} (h : AptThroughout edits)
    (hedit : edit.Apt (labels edits)) : AptThroughout (edits ++ [edit]) := by
  intro before last hprefix
  rcases List.prefix_concat_iff.1 hprefix with heq | hprefix
  · obtain ⟨rfl, hlast⟩ := List.append_inj' heq rfl
    obtain rfl := List.singleton_inj.1 hlast
    exact hedit
  · exact h before last hprefix

namespace Construction
open OpenElement
variable {s s' : State} {e : OpenElement} {es outer : List OpenElement} {names : List String} {name : String}
  {wanted scope : OpenElement → Bool} {α β : Type}

def formattingTags : List String := formattingNames ++ ["a", "nobr"]

def Run.Honest (run : Run) : Prop := run.isBlank → IsLayout (String.ofList run.text)

theorem bind_run (m : Build α) (f : α → Build β) (s : State) : (m >>= f) s = f (m s).1 (m s).2 := rfl

theorem opened_run (s : State) : Construction.opened s = (s.opened, s) := rfl

/-! States. -/

namespace State

def labels (s : State) : List (Namespace × String) := Markup.labels s.edits.reverse

def Knows (s : State) (e : OpenElement) : Prop := s.labels[e.handle]? = some (e.ns, e.name)

structure Sane (s : State) : Prop where
  nested : Nested s.opened
  count : s.labels.length = s.nextHandle
  opened : ∀ e ∈ s.opened, s.Knows e
  head : ∀ e ∈ s.head, s.Knows e ∧ e.isHtml "head"
  form : ∀ e ∈ s.form, s.Knows e ∧ e.isHtml "form"
  formatting : ∀ handle tag, .element handle tag ∈ s.formatting →
    s.labels[handle]? = some (.html, tag.name) ∧ tag.name ∈ formattingTags
  templateModes : ∀ m ∈ s.templateModes, m ∈ modesOfTemplates
  tableText : ∀ run ∈ s.tableText, run.Honest
  edits : AptThroughout s.edits.reverse

theorem labels_edit (s : State) (edit : Edit) :
    ({ s with edits := edit :: s.edits } : State).labels = s.labels ++ edit.label?.toList := by
  rw [labels, List.reverse_cons, labels_concat]
  rfl

theorem labels_prefix (s : State) (edit : Edit) (next : Handle) :
    s.labels <+: ({ s with edits := edit :: s.edits, nextHandle := next } : State).labels :=
  (labels_edit s edit).symm ▸ List.prefix_append ..

theorem Knows.mono (h : s.Knows e) (hmore : s.labels <+: s'.labels) : s'.Knows e := getElem?_mono hmore h

theorem Sane.edit (h : s.Sane) (edit : Edit) {next : Handle}
    (hnext : s.nextHandle + edit.label?.toList.length = next) (hapt : edit.Apt s.labels) :
    ({ s with edits := edit :: s.edits, nextHandle := next } : State).Sane := by
  have hlabels := labels_edit s edit
  have hmore := labels_prefix s edit next
  exact {
    nested := h.nested
    count := by rw [← hnext, ← h.count, ← List.length_append]; exact congrArg List.length hlabels
    opened := fun e he => (h.opened e he).mono hmore
    head := fun e he => (h.head e he).imp_left fun hknows => hknows.mono hmore
    form := fun e he => (h.form e he).imp_left fun hknows => hknows.mono hmore
    formatting := fun handle tag hmem => (h.formatting handle tag hmem).imp_left (getElem?_mono hmore)
    templateModes := h.templateModes
    tableText := h.tableText
    edits := List.reverse_cons ▸ h.edits.concat hapt }

end State

/-! Settings. -/

/-- What stays the same while content is read. -/
structure Setting where
  anchor : Option OpenElement
  mode : Mode
  resumed : Mode
  /-- What is misplaced in a table goes elsewhere. -/
  fosters : Prop
  known : List (Namespace × String)

variable {t : Setting} {post : β → State → Prop}

namespace Setting

structure Holds (t : Setting) (s : State) : Prop where
  sane : s.Sane
  anchor : anchor? s.opened = t.anchor
  mode : s.mode = t.mode
  resumed : s.resumed = t.resumed
  fosters : t.fosters → s.fosters
  known : t.known <+: s.labels

def Yields (t : Setting) (m : Build α) (post : α → State → Prop) : Prop :=
  ∀ s, t.Holds s → post (m s).1 (m s).2

abbrev Keeps (t : Setting) (m : Build α) : Prop := t.Yields m fun _ => t.Holds

theorem Keeps.pure (a : α) : t.Keeps (Pure.pure a) := fun _ => id

theorem Yields.bind {m : Build α} {f : α → Build β} (hm : t.Keeps m) (hf : ∀ a, t.Yields (f a) post) :
    t.Yields (m >>= f) post := fun s hs => hf _ _ (hm s hs)

theorem Yields.ite {c : Prop} [Decidable c] {m m' : Build β} (hm : c → t.Yields m post)
    (hm' : ¬ c → t.Yields m' post) : t.Yields (if c then m else m') post := by
  split
  · exact hm ‹c›
  · exact hm' ‹¬ c›

theorem Holds.now (hs : t.Holds s) : { t with known := s.labels : Setting }.Holds s :=
  { hs with known := List.prefix_rfl }

theorem Holds.weaken (hs : { t with known : Setting }.Holds s) (h : t.known <+: known) : t.Holds s :=
  { hs with known := h.trans hs.known }

theorem Yields.bind_now (mid : α → State → Prop) {m : Build α} {f : α → Build β} (hm : t.Yields m mid)
    (hholds : ∀ a s, mid a s → t.Holds s)
    (hf : ∀ a s, mid a s → Yields { t with known := s.labels } (f a) post) : t.Yields (m >>= f) post :=
  fun s hs => hf _ _ (hm s hs) _ (hholds _ _ (hm s hs)).now

theorem Keeps.weaken {m : Build α} (hm : Keeps { t with known } m) (h : t.known <+: known) :
    Yields { t with known } m fun _ => t.Holds := fun s hs => (hm s hs).weaken h

theorem Yields.get {f : State → Build β}
    (hf : ∀ s, t.Holds s → Yields { t with known := s.labels } (f s) post) :
    t.Yields (MonadState.get >>= f) post := fun s hs => hf s hs s hs.now

theorem Keeps.of_reads {m : Build α} (hm : ∀ s, (m s).2 = s) : t.Keeps m := fun s hs => (hm s).symm ▸ hs

theorem keeps_forbidFrameset : t.Keeps forbidFrameset := fun _ hs =>
  { hs with sane := { hs.sane with } }

theorem keeps_dropNextLineFeed : t.Keeps dropNextLineFeed := fun _ hs =>
  { hs with sane := { hs.sane with } }

/-! The stack. -/

theorem Holds.close (hs : t.Holds s) (hes : es <:+ s.opened) (ha : anchor? es = anchor? s.opened) :
    t.Holds { s with opened := es } :=
  { hs with
    sane := { hs.sane with
      nested := hs.sane.nested.suffix hes
      opened := fun e he => hs.sane.opened e (hes.subset he) }
    anchor := ha.trans hs.anchor }

theorem keeps_closeImplied (h : ∀ n ∈ names, n ∉ structuralNames) : t.Keeps (closeImplied names) :=
  fun _ hs => hs.close (List.dropWhile_suffix _) (anchor?_dropWhile fun _ he => not_isHtmlIn h he)

theorem Holds.popThrough (hs : t.Holds s) (h : Finds wanted s.opened outer) :
    t.Holds (Construction.popThrough wanted s).2 := by
  have hclosed := hs.close h.suffix h.anchor?_eq
  rwa [← h.tail_dropWhile] at hclosed

theorem Yields.ifInScope {m m' : Build β} (hwanted : ∀ e, wanted e → ¬ structural e)
    (hscope : ∀ e, defaultScope e → scope e)
    (hm : ∀ s outer, t.Holds s → Finds wanted s.opened outer → post (m s).1 (m s).2)
    (hm' : t.Yields m' post) : t.Yields (do if ← inScope wanted scope then m else m') post := by
  intro s hs
  change post ((if inScopeOf wanted scope s.opened then m else m') s).1
    ((if inScopeOf wanted scope s.opened then m else m') s).2
  split
  · rename_i hfound
    obtain ⟨outer, houter⟩ := hs.sane.nested.finds (fun e _ => hwanted e) hscope hfound
    exact hm s outer hs houter
  · exact hm' s hs

theorem Yields.unlessInScope {m m' : Build β} (hwanted : ∀ e, wanted e → ¬ structural e)
    (hscope : ∀ e, defaultScope e → scope e)
    (hm : ∀ s outer, t.Holds s → Finds wanted s.opened outer → post (m s).1 (m s).2)
    (hm' : t.Yields m' post) : t.Yields (do if !(← inScope wanted scope) then m' else m) post := by
  intro s hs
  have hsearch := Yields.ifInScope hwanted hscope hm hm' s hs
  change post ((if inScopeOf wanted scope s.opened then m else m') s).1
    ((if inScopeOf wanted scope s.opened then m else m') s).2 at hsearch
  change post ((if !inScopeOf wanted scope s.opened then m' else m) s).1
    ((if !inScopeOf wanted scope s.opened then m' else m) s).2
  generalize inScopeOf wanted scope s.opened = found at hsearch ⊢
  cases found with
  | false => exact hsearch
  | true => exact hsearch

theorem Holds.closeThrough (hs : t.Holds s) (h : Finds wanted s.opened outer)
    (hnames : ∀ n ∈ names, n ∉ structuralNames) (hwanted : ∀ e, wanted e → ¬ e.isHtmlIn names) :
    t.Holds ((do closeImplied names; Construction.popThrough wanted) s).2 :=
  (keeps_closeImplied hnames s hs).popThrough (h.dropWhile hwanted)

theorem not_structural_of_isHtml (h : name ∉ structuralNames) (he : e.isHtml name) : ¬ structural e :=
  fun hs => h ((isHtml_iff.1 he).2 ▸ (isHtmlIn_iff.1 hs).2)

theorem keeps_closeOpenParagraph : t.Keeps closeOpenParagraph := by
  refine Yields.ifInScope (fun e he => not_structural_of_isHtml (by decide) he)
    (fun e he => by rw [buttonScope, he]; rfl) (fun s outer hs houter => ?_) (Keeps.pure ())
  refine hs.closeThrough houter (by decide) fun e he hin => ?_
  rw [isHtmlIn_iff, (isHtml_iff.1 he).2] at hin
  exact absurd hin.2 (by decide)

theorem Holds.pop (hs : t.Holds s) (h : ∀ e ∈ s.opened.head?, ¬ structural e) :
    t.Holds (Construction.pop s).2 := by
  refine hs.close (List.tail_suffix _) ?_
  cases hopened : s.opened with
  | nil => rfl
  | cons e es => exact (anchor?_cons (h e (by rw [hopened]; rfl))).symm

theorem Yields.ifCurrent {p : OpenElement → Bool} {m m' : Build β} (hp : ∀ e, p e → ¬ structural e)
    (hm : ∀ s, t.Holds s → (∀ e ∈ s.opened.head?, ¬ structural e) → post (m s).1 (m s).2)
    (hm' : t.Yields m' post) : t.Yields (do if ← currentIs p then m else m') post := by
  intro s hs
  change post ((if s.opened.head?.any p then m else m') s).1 ((if s.opened.head?.any p then m else m') s).2
  split
  · rename_i hcurrent
    obtain ⟨e, he, hpe⟩ := (Option.any_eq_true _ _).1 hcurrent
    refine hm s hs fun x hx => ?_
    rw [he] at hx
    obtain rfl := Option.some.inj hx
    exact hp e hpe
  · exact hm' s hs

theorem Holds.push (hs : t.Holds s) (hknows : s.Knows e) (he : ¬ e.isHtmlIn placedNames) :
    t.Holds { s with opened := e :: s.opened } :=
  { hs with
    sane := { hs.sane with
      nested := ⟨sits_of_not_placed he _, hs.sane.nested⟩
      opened := List.forall_mem_cons.2 ⟨hknows, hs.sane.opened⟩ }
    anchor := (anchor?_cons (not_structural he)).trans hs.anchor }

theorem Holds.filter (hs : t.Holds s) {p : OpenElement → Bool} (hp : ∀ e ∈ s.opened, structural e → p e) :
    t.Holds { s with opened := s.opened.filter p } :=
  { hs with
    sane := { hs.sane with
      nested := hs.sane.nested.filter hp
      opened := fun e he => hs.sane.opened e ((List.mem_filter.1 he).1) }
    anchor := (anchor?_filter hp).trans hs.anchor }

theorem Holds.removeOpen (hs : t.Holds s) {handle : Handle} {label : Namespace × String}
    (hlabel : s.labels[handle]? = some label) (hname : label.2 ∉ structuralNames) :
    t.Holds (Construction.removeOpen handle s).2 := by
  refine hs.filter fun e he hstructural => bne_iff_ne.2 fun heq => hname ?_
  have hknows := hs.sane.opened e he
  rw [State.Knows, heq, hlabel] at hknows
  obtain rfl := Option.some.inj hknows
  exact (isHtmlIn_iff.1 hstructural).2

/-! Edits and new elements. -/

theorem Holds.edit (hs : t.Holds s) (edit : Edit) {next : Handle}
    (hnext : s.nextHandle + edit.label?.toList.length = next) (hapt : edit.Apt s.labels) :
    t.Holds { s with edits := edit :: s.edits, nextHandle := next } :=
  { hs with
    sane := hs.sane.edit edit hnext hapt
    known := hs.known.trans (State.labels_prefix s edit next) }

theorem keeps_edit {edit : Edit} (hlabel : edit.label? = none) (hapt : ∀ s, t.Holds s → edit.Apt s.labels) :
    t.Keeps (Construction.edit edit) := fun s hs =>
  hs.edit edit (by rw [hlabel]; rfl) (hapt s hs)

theorem Holds.newElement (hs : t.Holds s) (ns : Namespace) (tag : Tag) :
    t.Holds (newElement ns tag s).2 ∧ (newElement ns tag s).2.Knows (newElement ns tag s).1 := by
  refine ⟨hs.edit (.element tag.name ns tag.attributes) rfl trivial, ?_⟩
  have hlabels := State.labels_edit s (.element tag.name ns tag.attributes)
  change (State.labels { s with edits := .element tag.name ns tag.attributes :: s.edits })[s.nextHandle]? =
    some (ns, tag.name)
  rw [hlabels, ← hs.sane.count]
  exact List.getElem?_concat_length

theorem placeIn_run (target : OpenElement) (s : State) : placeIn target s =
    (if s.fosters && target.isHtmlIn tableParts then
      (fosterPoint s.opened).getD (.inside (s.opened.getLast?.map (·.handle)))
    else .inside (some target.handle), s) := by
  change (if s.fosters && target.isHtmlIn tableParts then _ else _ : Build InsertionPoint) s = _
  split <;> rfl

theorem currentPlace_run (s : State) :
    currentPlace s = ((s.opened.head?.map fun e => (placeIn e s).1).getD (.inside none), s) := by
  have hcurrent : current? s = (s.opened.head?, s) := rfl
  rw [currentPlace, bind_run, hcurrent]
  cases s.opened.head? with
  | none => rfl
  | some e =>
    have hsame : (placeIn e s).2 = s := by rw [placeIn_run]
    exact Prod.ext rfl hsame

theorem fosterPoint_eq (hes : ∃ x ∈ es, x.isHtmlIn ["template", "table"]) :
    (∃ x ∈ es, x.isHtml "template" ∧ fosterPoint es = some (.inside (some x.handle))) ∨
      ∃ x ∈ es, x.isHtml "table" ∧ ∃ around, fosterPoint es = some (.misplaced x.handle around) := by
  induction es with
  | nil => exact absurd hes (by simp)
  | cons e rest ih =>
    rw [fosterPoint]
    split
    · rename_i htemplate
      exact .inl ⟨e, List.mem_cons_self, htemplate, rfl⟩
    split
    · rename_i htable
      exact .inr ⟨e, List.mem_cons_self, htable, _, rfl⟩
    · rename_i htemplate htable
      refine (ih ?_).imp (fun ⟨x, hx, h⟩ => ⟨x, .tail e hx, h⟩) fun ⟨x, hx, h⟩ => ⟨x, .tail e hx, h⟩
      obtain ⟨x, hx, hholds⟩ := hes
      refine ⟨x, (List.mem_cons.1 hx).resolve_left fun heq => ?_, hholds⟩
      subst heq
      rw [isHtmlIn_iff, List.mem_cons, List.mem_singleton] at hholds
      rcases hholds with ⟨hns, hname | hname⟩
      · exact htemplate (isHtml_iff.2 ⟨hns, hname⟩)
      · exact htable (isHtml_iff.2 ⟨hns, hname⟩)

/-- Text goes into a part of a table only where the current element is one and nothing goes elsewhere. -/
theorem apt_text (hs : s.Sane) {text : String}
    (h : IsLayout text ∨ s.fosters ∨ ¬ StandsOn tableParts s.opened.head?) :
    (Edit.insert (currentPlace s).1 (.text text)).Apt s.labels := by
  rw [currentPlace_run]
  cases he : s.opened.head? with
  | none => trivial
  | some e =>
    obtain ⟨rest, hopened⟩ := List.head?_eq_some_iff.1 he
    have hn : Nested (e :: rest) := hopened ▸ hs.nested
    dsimp only [Option.map_some, Option.getD_some]
    rw [placeIn_run]
    dsimp only
    split
    · rename_i hfosters
      have hheld : e.isHtmlIn heldNames := isHtmlIn_mono (by decide) (Bool.and_eq_true_iff.1 hfosters).2
      rcases fosterPoint_eq (hopened ▸ hn.exists_holder hheld) with ⟨x, hx, hname, hpoint⟩ | ⟨x, hx, hname, _, hpoint⟩
      · rw [hpoint]
        refine ⟨_, hs.opened x hx, fun _ hpart => ?_⟩
        rw [(isHtml_iff.1 hname).2] at hpart
        exact absurd hpart (show "template" ∉ tableParts by decide)
      · rw [hpoint]
        exact (hs.opened x hx).trans (congrArg some (Prod.ext (isHtml_iff.1 hname).1 (isHtml_iff.1 hname).2))
    · rename_i hfosters
      refine ⟨_, hs.opened e (hopened ▸ List.mem_cons_self), fun hns hpart => ?_⟩
      have hin : e.isHtmlIn tableParts := isHtmlIn_iff.2 ⟨hns, hpart⟩
      rw [hin, Bool.and_true] at hfosters
      exact h.resolve_right fun hnot => hnot.elim hfosters fun hout => hout ⟨e, he, hin⟩

theorem appendText_run (text : List Char) (s : State) : (Construction.appendText text s).2 =
    { s with edits := .insert (currentPlace s).1 (.text (String.ofList text)) :: s.edits } := by
  change (Construction.edit (.insert (currentPlace s).1 _) (currentPlace s).2).2 = _
  rw [currentPlace_run]
  rfl

theorem Holds.appendText (hs : t.Holds s) {text : List Char}
    (h : IsLayout (String.ofList text) ∨ s.fosters ∨ ¬ StandsOn tableParts s.opened.head?) :
    t.Holds (Construction.appendText text s).2 := by
  rw [appendText_run]
  exact hs.edit _ (Nat.add_zero _) (apt_text hs.sane h)

theorem keeps_appendText {text : List Char} (h : IsLayout (String.ofList text) ∨ t.fosters ∨
    ¬ StandsOn tableParts t.anchor) : t.Keeps (Construction.appendText text) := fun s hs => by
  refine hs.appendText <| h.imp_right (Or.imp hs.fosters fun hout hcurrent => hout ?_)
  obtain ⟨e, he, hname⟩ := hcurrent
  obtain ⟨rest, hopened⟩ := List.head?_eq_some_iff.1 he
  rw [← hs.anchor, hopened]
  exact ⟨e, anchor?_cons_of_structural (isHtmlIn_mono (by decide) hname), hname⟩

theorem keeps_detach (node : Handle) : t.Keeps (Construction.edit (.detach node)) :=
  keeps_edit rfl fun _ _ => trivial

theorem keeps_insertNode (point : InsertionPoint) (node : Handle) :
    t.Keeps (Construction.edit (.insert point (.node node))) := keeps_edit rfl fun _ _ => apt_node point node

theorem keeps_appendCommentTo (point : InsertionPoint) (text : String) :
    t.Keeps (appendCommentTo point text) := by
  intro s hs
  have hmade := hs.edit (.comment text) rfl trivial
  exact hmade.edit (.insert point (.node s.nextHandle)) rfl (apt_node point _)

theorem keeps_appendComment (text : String) : t.Keeps (appendComment text) :=
  Yields.bind (Keeps.of_reads fun s => by rw [currentPlace_run]) fun place => keeps_appendCommentTo place text

/-! New elements in the tree. -/

theorem insertVoid_run (ns : Namespace) (tag : Tag) (s : State) : insertVoid ns tag s =
    ((newElement ns tag s).1, (Construction.edit (.insert (currentPlace s).1 (.node s.nextHandle))
      (newElement ns tag s).2).2) := by
  change (fun place : InsertionPoint × State => ((newElement ns tag place.2).1,
    (Construction.edit (.insert place.1 (.node place.2.nextHandle)) (newElement ns tag place.2).2).2))
    (currentPlace s) = _
  rw [currentPlace_run]

theorem Holds.insertVoid (hs : t.Holds s) (ns : Namespace) (tag : Tag) :
    t.Holds (insertVoid ns tag s).2 ∧ (insertVoid ns tag s).2.Knows (insertVoid ns tag s).1 ∧
      (insertVoid ns tag s).1 = ⟨s.nextHandle, ns, tag.name⟩ := by
  obtain ⟨hmade, hknows⟩ := hs.newElement ns tag
  have hedit := hmade.edit (.insert (currentPlace s).1 (.node s.nextHandle)) rfl (apt_node _ _)
  rw [insertVoid_run]
  exact ⟨hedit, hknows.mono (State.labels_prefix _ _ _), rfl⟩

theorem Holds.insertIn (hs : t.Holds s) {ns : Namespace} {tag : Tag}
    (hname : ns = .html → tag.name ∉ placedNames) :
    t.Holds (insertIn ns tag s).2 ∧ (insertIn ns tag s).2.Knows (insertIn ns tag s).1 ∧
      (insertIn ns tag s).1 = ⟨s.nextHandle, ns, tag.name⟩ := by
  obtain ⟨hvoid, hknows, heq⟩ := hs.insertVoid ns tag
  have hplain : ¬ (Construction.insertVoid ns tag s).1.isHtmlIn placedNames := by
    rw [heq, isHtmlIn_iff]
    exact fun hin => hname hin.1 hin.2
  exact ⟨hvoid.push hknows hplain, hknows, heq⟩

theorem keeps_insertVoid (ns : Namespace) (tag : Tag) : t.Keeps (Construction.insertVoid ns tag) :=
  fun _ hs => (hs.insertVoid ns tag).1

theorem keeps_insertClosed (tag : Tag) : t.Keeps (insertClosed tag) := keeps_insertVoid .html tag

theorem keeps_insert {tag : Tag} (hname : tag.name ∉ placedNames) : t.Keeps (insert tag) :=
  fun _ hs => (hs.insertIn fun _ => hname).1

/-! Formatting elements. -/

theorem Holds.setFormatting (hs : t.Holds s) {entries : List Formatting}
    (h : ∀ handle tag, .element handle tag ∈ entries → .element handle tag ∈ s.formatting ∨
      s.labels[handle]? = some (.html, tag.name) ∧ tag.name ∈ formattingTags) :
    t.Holds { s with formatting := entries } :=
  { hs with
    sane := { hs.sane with
      formatting := fun handle tag hmem => (h handle tag hmem).elim (hs.sane.formatting handle tag) id } }

theorem keeps_setFormatting {f : List Formatting → List Formatting} (hf : ∀ entries, ∀ e ∈ f entries,
    e ∈ entries ∨ e = .marker) : t.Keeps (Construction.setFormatting f) := fun s hs =>
  hs.setFormatting fun _ _ hmem => .inl ((hf s.formatting _ hmem).resolve_right nofun)

theorem keeps_removeFormatting (handle : Handle) : t.Keeps (removeFormatting handle) :=
  keeps_setFormatting fun _ _ he => .inl (List.mem_filter.1 he).1

theorem keeps_pushMarker : t.Keeps pushMarker :=
  keeps_setFormatting fun _ _ he => (List.mem_cons.1 he).symm

theorem keeps_clearToMarker : t.Keeps clearToMarker :=
  keeps_setFormatting fun _ _ he => .inl ((List.dropWhile_sublist _).subset (List.mem_of_mem_tail he))

end Setting

end Construction
end DomQuery.Markup
