import DomQuery.Markup.Construction.Formatting

/-!
The stack of open elements. The elements that tables and templates are made of stand on one another in a
fixed way, and no search for another element goes beyond the innermost of them.
-/
namespace DomQuery.Markup.Construction
variable {e a : OpenElement} {es rest above outer : List OpenElement} {names more : List String}
  {name : String} {wanted scope p : OpenElement → Bool}

namespace OpenElement

theorem isHtmlIn_iff : e.isHtmlIn names ↔ e.ns = .html ∧ e.name ∈ names := by
  simp [isHtmlIn]

theorem isHtml_iff : e.isHtml name ↔ e.ns = .html ∧ e.name = name := by
  simp [isHtml]

theorem isHtmlIn_of_isHtml (h : name ∈ names) (he : e.isHtml name) : e.isHtmlIn names := by
  obtain ⟨hns, rfl⟩ := isHtml_iff.1 he
  exact isHtmlIn_iff.2 ⟨hns, h⟩

theorem isHtmlIn_mono (h : ∀ n ∈ names, n ∈ more) (he : e.isHtmlIn names) : e.isHtmlIn more := by
  rw [isHtmlIn_iff] at he ⊢
  exact he.imp_right (h _)

theorem not_isHtmlIn (h : ∀ n ∈ names, n ∉ more) (he : e.isHtmlIn names) : ¬ e.isHtmlIn more := by
  rw [isHtmlIn_iff] at he ⊢
  exact fun hmore => h _ he.2 hmore.2

end OpenElement

open OpenElement

/-! The structure. -/

def structuralNames : List String :=
  ["html", "template", "table", "caption", "tbody", "thead", "tfoot", "tr", "td", "th"]

def structural : OpenElement → Bool := isHtmlIn structuralNames

/-- The innermost structural element. -/
def anchor? (es : List OpenElement) : Option OpenElement := es.find? structural

def StandsOn (names : List String) (e : Option OpenElement) : Prop := ∃ a, e = some a ∧ a.isHtmlIn names

theorem StandsOn.apart {o : Option OpenElement} (h : StandsOn names o) (hapart : ∀ n ∈ names, n ∉ more) :
    ¬ StandsOn more o := by
  rintro ⟨x, hx, hmore⟩
  obtain ⟨y, hy, hnames⟩ := h
  obtain rfl := Option.some.inj (hx.symm.trans hy)
  exact not_isHtmlIn hapart hnames hmore

theorem StandsOn.not_isHtml (h : StandsOn names (some e)) (hname : name ∉ names) : ¬ e.isHtml name :=
  fun he => by
    obtain ⟨_, ⟨⟩, hnames⟩ := h
    exact hname ((isHtml_iff.1 he).2 ▸ (isHtmlIn_iff.1 hnames).2)

/-- What an element of a table must stand on directly. -/
def footing? (e : OpenElement) : Option (List String) :=
  if e.isHtmlIn ["caption", "tbody", "thead", "tfoot"] then some ["table", "template"]
  else if e.isHtml "tr" then some ["tbody", "thead", "tfoot", "template"]
  else if e.isHtmlIn ["td", "th"] then some ["tr", "template"]
  else none

theorem footing?_of_section (h : e.isHtmlIn ["caption", "tbody", "thead", "tfoot"]) :
    ["table", "template"] ∈ footing? e := by
  rw [footing?, if_pos h]
  exact rfl

theorem footing?_of_row (h : e.isHtml "tr") : ["tbody", "thead", "tfoot", "template"] ∈ footing? e := by
  have hin : e.isHtmlIn ["tr"] := isHtmlIn_of_isHtml (by decide) h
  have hnot : ¬ e.isHtmlIn ["caption", "tbody", "thead", "tfoot"] := not_isHtmlIn (by decide) hin
  rw [footing?, if_neg hnot, if_pos h]
  exact rfl

theorem footing?_of_cell (h : e.isHtmlIn ["td", "th"]) : ["tr", "template"] ∈ footing? e := by
  have hnot : ¬ e.isHtmlIn ["caption", "tbody", "thead", "tfoot"] := not_isHtmlIn (by decide) h
  have hrow : ¬ e.isHtml "tr" := fun hrow => by
    have hin : e.isHtmlIn ["tr"] := isHtmlIn_of_isHtml (by decide) hrow
    exact not_isHtmlIn (by decide) h hin
  rw [footing?, if_neg hnot, if_neg hrow, if_pos h]
  exact rfl

theorem isPart_of_footing (h : names ∈ footing? e) :
    e.isHtmlIn ["caption", "tbody", "thead", "tfoot", "tr", "td", "th"] := by
  rw [footing?] at h
  split at h
  · rename_i hsection
    exact isHtmlIn_mono (by decide) hsection
  split at h
  · rename_i hrow
    exact isHtmlIn_of_isHtml (by decide) hrow
  split at h
  · rename_i hcell
    exact isHtmlIn_mono (by decide) hcell
  · cases h

theorem structural_of_mem_footing (h : names ∈ footing? e) : ∀ n ∈ names, n ∈ structuralNames := by
  rw [footing?] at h
  split at h
  · obtain rfl := Option.some.inj h
    decide
  split at h
  · obtain rfl := Option.some.inj h
    decide
  split at h
  · obtain rfl := Option.some.inj h
    decide
  · cases h

/-- How an element stands on those around it. -/
structure Sits (e : OpenElement) (rest : List OpenElement) : Prop where
  root : e.isHtml "html" → rest = []
  page : e.isHtmlIn ["head", "body"] → ∀ a ∈ anchor? rest, a.isHtml "html"
  columns : e.isHtml "colgroup" → StandsOn ["table", "template"] (anchor? rest)
  footing : ∀ names ∈ footing? e, StandsOn names rest.head?

def Nested : List OpenElement → Prop
  | [] => True
  | e :: rest => Sits e rest ∧ Nested rest

def placedNames : List String := structuralNames ++ ["head", "body", "colgroup"]

theorem not_structural (h : ¬ e.isHtmlIn placedNames) : ¬ structural e :=
  fun he => h (isHtmlIn_mono (by decide) he)

theorem footing?_eq_none (h : ¬ structural e) : footing? e = none := by
  rw [footing?, if_neg fun he => h (isHtmlIn_mono (by decide) he),
    if_neg fun he => h (isHtmlIn_of_isHtml (by decide) he),
    if_neg fun he => h (isHtmlIn_mono (by decide) he)]

theorem Sits.congr (h : Sits e es) (he : ¬ structural e) (hsame : anchor? rest = anchor? es) :
    Sits e rest where
  root hroot := absurd (isHtmlIn_of_isHtml (by decide) hroot) he
  page := hsame ▸ h.page
  columns := hsame ▸ h.columns
  footing names hnames := by
    rw [footing?_eq_none he] at hnames
    cases hnames

theorem sits_of_not_placed (h : ¬ e.isHtmlIn placedNames) (rest : List OpenElement) : Sits e rest where
  root he := absurd (isHtmlIn_of_isHtml (by decide) he) h
  page he := absurd (isHtmlIn_mono (by decide) he) h
  columns he := absurd (isHtmlIn_of_isHtml (by decide) he) h
  footing names hnames := by
    rw [footing?_eq_none (not_structural h)] at hnames
    cases hnames

theorem sits_of_footing (h : names ∈ footing? e) (hstands : StandsOn names rest.head?) : Sits e rest := by
  have hpart := isPart_of_footing h
  have hnot {name : String} (hname : name ∉ ["caption", "tbody", "thead", "tfoot", "tr", "td", "th"]) :
      ¬ e.isHtml name := fun he => hname ((isHtml_iff.1 he).2 ▸ (isHtmlIn_iff.1 hpart).2)
  exact {
    root := fun he => absurd he (hnot (by decide))
    page := fun he => absurd he (not_isHtmlIn (by decide) hpart)
    columns := fun he => absurd he (hnot (by decide))
    footing := fun more hmore => by
      obtain rfl := Option.some.inj ((show footing? e = _ from h).symm.trans hmore)
      exact hstands }

theorem sits_columns (h : e.isHtml "colgroup") (hstands : StandsOn ["table", "template"] (anchor? rest)) :
    Sits e rest where
  root he := by simp [(isHtml_iff.1 h).2, isHtml_iff] at he
  page he := by simp [(isHtml_iff.1 h).2, isHtmlIn_iff] at he
  columns _ := hstands
  footing names hnames := by
    have hpart := isPart_of_footing hnames
    simp [(isHtml_iff.1 h).2, isHtmlIn_iff] at hpart

theorem anchor?_cons_of_structural (h : structural e) : anchor? (e :: rest) = some e :=
  List.find?_cons_of_pos h

theorem anchor?_cons (h : ¬ structural e) : anchor? (e :: rest) = anchor? rest :=
  List.find?_cons_of_neg h

theorem anchor?_append (es : List OpenElement) (h : ∀ e ∈ above, ¬ structural e) :
    anchor? (above ++ es) = anchor? es := by
  rw [anchor?, List.find?_append, List.find?_eq_none.2 h, Option.none_or, anchor?]

theorem Nested.suffix (h : Nested es) (hsuffix : rest <:+ es) : Nested rest := by
  obtain ⟨front, rfl⟩ := hsuffix
  induction front with
  | nil => exact h
  | cons e front ih => exact ih h.2

theorem nested_append (h : ∀ e ∈ above, ¬ structural e) :
    Nested (above ++ es) ↔ (∀ e ∈ above, Sits e es) ∧ Nested es := by
  induction above with
  | nil => simp
  | cons e above ih =>
    obtain ⟨he, habove⟩ := List.forall_mem_cons.1 h
    rw [List.cons_append, Nested, ih habove, List.forall_mem_cons, and_assoc]
    have hanchor := anchor?_append es habove
    exact and_congr_left fun _ =>
      ⟨fun hsits => hsits.congr he hanchor.symm, fun hsits => hsits.congr he hanchor⟩

/-! Elements that are taken out. -/

theorem anchor?_filter (h : ∀ e ∈ es, structural e → p e) : anchor? (es.filter p) = anchor? es := by
  induction es with
  | nil => rfl
  | cons e es ih =>
    obtain ⟨he, hrest⟩ := List.forall_mem_cons.1 h
    by_cases hp : p e
    · rw [List.filter_cons_of_pos hp]
      by_cases hs : structural e
      · rw [anchor?_cons_of_structural hs, anchor?_cons_of_structural hs]
      · rw [anchor?_cons hs, anchor?_cons hs, ih hrest]
    · rw [List.filter_cons_of_neg hp, ih hrest, anchor?_cons fun hs => hp (he hs)]

theorem Sits.filter (h : Sits e rest) (hp : ∀ e ∈ rest, structural e → p e) :
    Sits e (rest.filter p) where
  root he := by rw [h.root he, List.filter_nil]
  page he := anchor?_filter hp ▸ h.page he
  columns he := anchor?_filter hp ▸ h.columns he
  footing names hnames := by
    obtain ⟨r, hr, hname⟩ := h.footing names hnames
    obtain ⟨rest', rfl⟩ := List.head?_eq_some_iff.1 hr
    have hkept := hp r List.mem_cons_self (isHtmlIn_mono (structural_of_mem_footing hnames) hname)
    exact ⟨r, by rw [List.filter_cons_of_pos hkept, List.head?_cons], hname⟩

theorem Nested.filter (h : Nested es) (hp : ∀ e ∈ es, structural e → p e) : Nested (es.filter p) := by
  induction es with
  | nil => trivial
  | cons e es ih =>
    obtain ⟨he, hrest⟩ := List.forall_mem_cons.1 hp
    rw [List.filter_cons]
    split
    · exact ⟨h.1.filter hrest, ih h.2 hrest⟩
    · exact ih h.2 hrest

theorem anchor?_dropWhile (h : ∀ e, p e → ¬ structural e) : anchor? (es.dropWhile p) = anchor? es := by
  have happend := anchor?_append (es.dropWhile p) fun e (he : e ∈ es.takeWhile p) =>
    h e (List.all_eq_true.1 List.all_takeWhile e he)
  rwa [List.takeWhile_append_dropWhile, eq_comm] at happend

theorem exists_dropWhile (h : anchor? es = some a) (ha : p a) (hp : ∀ e, p e → structural e) :
    ∃ below, es.dropWhile (!p ·) = a :: below := by
  induction es with
  | nil => cases h
  | cons e es ih =>
    by_cases he : structural e
    · rw [anchor?_cons_of_structural he] at h
      obtain rfl := Option.some.inj h
      exact ⟨es, List.dropWhile_cons_of_neg (by simp [ha])⟩
    · rw [anchor?_cons he] at h
      obtain ⟨below, hbelow⟩ := ih h
      have hpe : ¬ p e := fun hpe => he (hp e hpe)
      exact ⟨below, by rw [List.dropWhile_cons_of_pos (by simp [hpe]), hbelow]⟩

/-! Searches. -/

/-- The structural elements that a search within a table goes through or ends at. -/
def tableNames : List String := ["html", "template", "table", "tbody", "thead", "tfoot", "tr"]

def heldNames : List String := ["template", "table", "tbody", "thead", "tfoot", "tr"]

theorem tableScope_or_footing (h : e.isHtmlIn tableNames) :
    tableScope e ∨ ∃ names ∈ footing? e, ∀ n ∈ names, n ∈ heldNames := by
  by_cases hpart : e.isHtmlIn ["tbody", "thead", "tfoot"]
  · exact .inr ⟨_, footing?_of_section (isHtmlIn_mono (by decide) hpart), by decide⟩
  by_cases hrow : e.isHtml "tr"
  · exact .inr ⟨_, footing?_of_row hrow, by decide⟩
  · left
    rw [tableScope, isHtmlIn_iff]
    rw [isHtmlIn_iff, tableNames] at h
    rw [isHtmlIn_iff] at hpart
    rw [isHtml_iff] at hrow
    grind

/-- A search within a table goes from part to part and ends at the table. -/
theorem Nested.not_inScope (hn : Nested (e :: rest)) (he : e.isHtmlIn tableNames)
    (hwanted : ∀ x ∈ e :: rest, x.isHtmlIn tableNames → ¬ wanted x)
    (hscope : ∀ x, tableScope x → scope x) : ¬ inScopeOf wanted scope (e :: rest) := by
  induction rest generalizing e with
  | nil => simp [inScopeOf, hwanted e List.mem_cons_self he]
  | cons r rest ih =>
    have hnot := hwanted e List.mem_cons_self he
    rcases tableScope_or_footing he with hstop | ⟨names, hnames, hlist⟩
    · simp [inScopeOf, hnot, hscope e hstop]
    · obtain ⟨r', hr, hname⟩ := hn.1.footing names hnames
      obtain rfl := Option.some.inj hr
      have hbelow := ih hn.2 (isHtmlIn_mono (fun n hn => List.mem_cons_of_mem _ (hlist n hn)) hname)
        fun x hx => hwanted x (List.mem_cons_of_mem e hx)
      rw [inScopeOf]
      simp [hnot, hbelow]

theorem isHolder_of_tableScope (h : tableScope e) (he : e.isHtmlIn heldNames) :
    e.isHtmlIn ["template", "table"] := by
  rw [tableScope, isHtmlIn_iff] at h
  rw [heldNames, isHtmlIn_iff] at he
  rw [isHtmlIn_iff]
  grind

theorem Nested.exists_holder (hn : Nested (e :: rest)) (he : e.isHtmlIn heldNames) :
    ∃ x ∈ e :: rest, x.isHtmlIn ["template", "table"] := by
  have hcases := tableScope_or_footing (isHtmlIn_mono (by decide) he)
  induction rest generalizing e with
  | nil =>
    rcases hcases with hstop | ⟨names, hnames, -⟩
    · exact ⟨e, List.mem_cons_self, isHolder_of_tableScope hstop he⟩
    · obtain ⟨r, hr, -⟩ := hn.1.footing names hnames
      cases hr
  | cons r rest ih =>
    rcases hcases with hstop | ⟨names, hnames, hlist⟩
    · exact ⟨e, List.mem_cons_self, isHolder_of_tableScope hstop he⟩
    · obtain ⟨r', hr, hname⟩ := hn.1.footing names hnames
      obtain rfl := Option.some.inj hr
      have hheld := isHtmlIn_mono hlist hname
      obtain ⟨x, hx, hholds⟩ := ih hn.2 hheld (tableScope_or_footing (isHtmlIn_mono (by decide) hheld))
      exact ⟨x, List.mem_cons_of_mem e hx, hholds⟩

/-- A search finds an element before it comes to a structural one, and `outer` is what stands below. -/
def Finds (wanted : OpenElement → Bool) (es outer : List OpenElement) : Prop :=
  ∃ within e, es = within ++ e :: outer ∧ wanted e ∧ ¬ structural e ∧
    ∀ x ∈ within, ¬ wanted x ∧ ¬ structural x

/-- No structural element can be passed by a search within the default bounds. -/
theorem Nested.finds (hn : Nested es) (hwanted : ∀ e ∈ es, wanted e → ¬ structural e)
    (hscope : ∀ e, defaultScope e → scope e) (h : inScopeOf wanted scope es) :
    ∃ outer, Finds wanted es outer := by
  induction es with
  | nil => cases h
  | cons e es ih =>
    obtain ⟨he, hrest⟩ := List.forall_mem_cons.1 hwanted
    by_cases hfound : wanted e
    · exact ⟨es, [], e, rfl, hfound, he hfound, nofun⟩
    by_cases hs : structural e
    · have hstop : ¬ scope e := fun hstop => by simp [inScopeOf, hfound, hstop] at h
      have hname : e.isHtmlIn tableNames := by
        have hdefault : ¬ e.isHtmlIn ["caption", "td", "th"] := fun hname => hstop <| hscope e <| by
          rw [defaultScope, isHtmlIn_mono (by decide) hname]
          rfl
        rw [structural, isHtmlIn_iff, structuralNames] at hs
        rw [isHtmlIn_iff] at hdefault ⊢
        rw [tableNames]
        grind
      refine absurd h (hn.not_inScope hname (fun x hx hx' hw => hwanted x hx hw ?_) fun x hx => hscope x ?_)
      · exact isHtmlIn_mono (by decide) hx'
      · rw [defaultScope, isHtmlIn_mono (by decide) hx]
        rfl
    · rw [inScopeOf] at h
      simp only [hfound, Bool.false_or, Bool.and_eq_true] at h
      obtain ⟨outer, within, f, rfl, hf, hfs, hbefore⟩ := ih hn.2 hrest h.2
      exact ⟨outer, e :: within, f, rfl, hf, hfs, List.forall_mem_cons.2 ⟨⟨hfound, hs⟩, hbefore⟩⟩

namespace Finds

theorem anchor?_eq (h : Finds wanted es outer) : anchor? outer = anchor? es := by
  obtain ⟨within, e, rfl, -, he, hwithin⟩ := h
  rw [anchor?_append _ fun x hx => (hwithin x hx).2, anchor?_cons he]

theorem suffix (h : Finds wanted es outer) : outer <:+ es := by
  obtain ⟨within, e, rfl, -⟩ := h
  exact ⟨within ++ [e], by simp⟩

theorem tail_dropWhile (h : Finds wanted es outer) : (es.dropWhile (!wanted ·)).tail = outer := by
  obtain ⟨within, e, rfl, he, -, hwithin⟩ := h
  rw [List.dropWhile_append_of_pos fun x hx => by simp [(hwithin x hx).1],
    List.dropWhile_cons_of_neg (by simp [he]), List.tail_cons]

theorem drop_takeWhile (h : Finds wanted es outer) :
    es.drop ((es.takeWhile (!wanted ·)).length + 1) = outer := by
  obtain ⟨within, e, rfl, he, -, hwithin⟩ := h
  rw [List.takeWhile_append_of_pos fun x hx => by simp [(hwithin x hx).1],
    List.takeWhile_cons_of_neg (by simp [he]), List.append_nil, List.drop_append]
  simp

theorem of_mem_takeWhile (h : Finds wanted es outer) (hn : Nested es) (ha : a ∈ es.takeWhile (!wanted ·)) :
    a ∈ es ∧ ¬ structural a ∧ Sits a outer := by
  have hmem := List.takeWhile_subset _ ha
  obtain ⟨within, e, rfl, he, hplain, hwithin⟩ := h
  rw [List.takeWhile_append_of_pos fun x hx => by simp [(hwithin x hx).1],
    List.takeWhile_cons_of_neg (by simp [he]), List.append_nil] at ha
  have hall : ∀ x ∈ within ++ [e], ¬ structural x :=
    List.forall_mem_append.2 ⟨fun x hx => (hwithin x hx).2, List.forall_mem_singleton.2 hplain⟩
  rw [← List.singleton_append, ← List.append_assoc] at hn
  exact ⟨hmem, (hwithin a ha).2, ((nested_append hall).1 hn).1 a (List.mem_append_left _ ha)⟩

theorem dropWhile (h : Finds wanted es outer) (hp : ∀ e, wanted e → ¬ p e) :
    Finds wanted (es.dropWhile p) outer := by
  obtain ⟨within, e, rfl, he, hs, hwithin⟩ := h
  induction within with
  | nil => exact ⟨[], e, List.dropWhile_cons_of_neg (hp e he), he, hs, nofun⟩
  | cons x within ih =>
    rw [List.cons_append, List.dropWhile_cons]
    split
    · exact ih (List.forall_mem_cons.1 hwithin).2
    · exact ⟨x :: within, e, rfl, he, hs, hwithin⟩

end Finds

theorem wanted_anchor (h : inScopeOf wanted tableScope es) (hwanted : ∀ e, wanted e → structural e) :
    ∃ a below, a :: below <:+ es ∧ anchor? es = some a ∧
      (wanted a ∨ ¬ tableScope a ∧ inScopeOf wanted tableScope below) := by
  induction es with
  | nil => cases h
  | cons e es ih =>
    rw [inScopeOf, Bool.or_eq_true, Bool.and_eq_true] at h
    by_cases he : structural e
    · exact ⟨e, es, List.suffix_rfl, anchor?_cons_of_structural he, h.imp_right (And.imp_left (by simp))⟩
    · obtain ⟨a, below, hsuffix, hanchor, hfound⟩ := ih (h.resolve_left fun hw => he (hwanted e hw)).2
      exact ⟨a, below, hsuffix.trans (List.suffix_cons e es), (anchor?_cons he).trans hanchor, hfound⟩

theorem Nested.wanted_cell (hn : Nested es) (hname : name ∈ ["td", "th"])
    (h : inScopeOf (·.isHtml name) tableScope es) (hcell : StandsOn ["td", "th"] (anchor? es)) :
    ∃ a, anchor? es = some a ∧ a.isHtml name ∧ a.isHtmlIn ["td", "th"] := by
  have hstructural : ∀ n ∈ ["td", "th"], n ∈ structuralNames := by decide
  obtain ⟨a, below, hsuffix, hanchor, hfound⟩ := wanted_anchor h fun e he =>
    isHtmlIn_of_isHtml (hstructural name hname) he
  obtain ⟨a', ha', hin⟩ := hcell
  obtain rfl := Option.some.inj (hanchor.symm.trans ha')
  refine ⟨a, hanchor, hfound.resolve_right fun hbelow => ?_, hin⟩
  have hcells := hn.suffix hsuffix
  obtain ⟨r, hr, hfoot⟩ := hcells.1.footing _ (footing?_of_cell hin)
  obtain ⟨rest, rfl⟩ := List.head?_eq_some_iff.1 hr
  refine hcells.2.not_inScope (isHtmlIn_mono (by decide) hfoot) (fun x _ hx hsame => ?_) (fun _ => id) hbelow.2
  exact not_isHtmlIn (by decide) hx (isHtmlIn_of_isHtml hname hsame)

/-! Modes. -/

/-- The structural elements in which a mode has its place. -/
def Suits (mode : Mode) (a : Option OpenElement) : Prop :=
  match mode with
  | .initial | .beforeHtml | .inFrameset | .afterFrameset | .afterAfterFrameset => True
  | .beforeHead | .inHead | .afterHead => ∀ e ∈ a, e.isHtml "html"
  | .inBody | .afterBody | .afterAfterBody => ∀ e ∈ a, e.isHtmlIn ["html", "template"]
  | .inTemplate => StandsOn ["template"] a
  | .inTable | .inColumnGroup => StandsOn ["table", "template"] a
  | .inTableBody => StandsOn ["tbody", "thead", "tfoot", "template"] a
  | .inRow => StandsOn ["tr", "template"] a
  | .inCell => StandsOn ["td", "th"] a
  | .inCaption => StandsOn ["caption"] a
  | .text | .inTableText => False

def modesOfTemplates : List Mode := [.inTemplate, .inTable, .inColumnGroup, .inTableBody, .inRow, .inBody]

theorem suits_template {mode : Mode} (hmode : mode ∈ modesOfTemplates) (he : e.isHtml "template") :
    Suits mode (some e) := by
  have hstands {names : List String} (h : "template" ∈ names) : StandsOn names (some e) :=
    ⟨e, rfl, isHtmlIn_of_isHtml h he⟩
  simp only [modesOfTemplates, List.mem_cons, List.not_mem_nil, or_false] at hmode
  rcases hmode with rfl | rfl | rfl | rfl | rfl | rfl
  · exact hstands (by decide)
  · exact hstands (by decide)
  · exact hstands (by decide)
  · exact hstands (by decide)
  · exact hstands (by decide)
  · rintro _ ⟨⟩
    exact isHtmlIn_of_isHtml (by decide) he

/-- The mode that the open elements call for has its place among them. -/
theorem Nested.suits_modeFor (hn : Nested es) {modes : List Mode}
    (hmodes : ∀ m ∈ modes, m ∈ modesOfTemplates) (hasHead : Bool) :
    Suits (modeFor modes hasHead es) (anchor? es) := by
  induction es with
  | nil => exact nofun
  | cons e rest ih =>
    have hbelow := ih hn.2
    rw [modeFor]
    split
    · rename_i hns
      rwa [anchor?_cons fun hs => by simp [(isHtmlIn_iff.1 hs).1] at hns]
    · rename_i hns
      have hns : e.ns = .html := by simpa using hns
      have hin {names : List String} (h : e.name ∈ names) : e.isHtmlIn names := isHtmlIn_iff.2 ⟨hns, h⟩
      have hself {name : String} (h : e.name = name) : e.isHtml name := isHtml_iff.2 ⟨hns, h⟩
      have hanchor (h : e.name ∈ structuralNames) : anchor? (e :: rest) = some e :=
        anchor?_cons_of_structural (hin h)
      have hskip (h : e.name ∉ structuralNames) : anchor? (e :: rest) = anchor? rest :=
        anchor?_cons fun hs => h (isHtmlIn_iff.1 hs).2
      have hstands {names : List String} (h : e.name ∈ names) (hs : e.name ∈ structuralNames) :
          StandsOn names (anchor? (e :: rest)) := ⟨e, hanchor hs, hin h⟩
      have hcell (h : e.name ∈ ["td", "th"]) (hs : e.name ∈ structuralNames) :
          Suits (if rest.isEmpty then .inBody else .inCell) (anchor? (e :: rest)) := by
        obtain ⟨r, hr, -⟩ := hn.1.footing ["tr", "template"] (footing?_of_cell (hin h))
        obtain ⟨rest', rfl⟩ := List.head?_eq_some_iff.1 hr
        exact hstands h hs
      split
      case h_1 hname | h_2 hname => exact hcell (by simp [hname]) (by simp [hname, structuralNames])
      case h_3 hname | h_4 hname | h_5 hname | h_6 hname | h_7 hname | h_9 hname =>
        exact hstands (by simp [hname]) (by simp [hname, structuralNames])
      case h_8 hname =>
        rw [hskip (by simp [hname, structuralNames])]
        exact hn.1.columns (hself hname)
      case h_10 hname =>
        rw [hanchor (by simp [hname, structuralNames])]
        refine suits_template ?_ (hself hname)
        cases modes with
        | nil => decide
        | cons mode modes => exact hmodes mode List.mem_cons_self
      case h_11 hname =>
        have hpage := hn.1.page (hin (by simp [hname]))
        rw [hskip (by simp [hname, structuralNames])]
        split
        · exact fun a ha => isHtmlIn_of_isHtml (by decide) (hpage a ha)
        · exact hpage
      case h_12 hname =>
        rw [hskip (by simp [hname, structuralNames])]
        exact fun a ha => isHtmlIn_of_isHtml (by decide) (hn.1.page (hin (by simp [hname])) a ha)
      case h_13 => trivial
      case h_14 hname =>
        rw [hanchor (by simp [hname, structuralNames])]
        split <;> (rintro _ ⟨⟩; exact hself hname)
      case h_15 =>
        rwa [hskip (by simp_all [structuralNames])]

end DomQuery.Markup.Construction
