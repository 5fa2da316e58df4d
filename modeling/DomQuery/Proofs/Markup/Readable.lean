import DomQuery.Proofs.Markup.Marks
import DomQuery.Proofs.Markup.Rendering
import DomQuery.Text.Search

/-!
Reading markup back. The markup of a plain forest can be cut into nodes in one way only: the first two
characters tell what comes next, and where it ends is told by a character that escaping keeps out.
-/
namespace DomQuery
open Markup Render

/-- Elements in which texts are escaped in full. -/
def Markup.escapesText (tag : String) : Bool := !isRawText tag && !isEscapableRawText tag

namespace Kind

/-- Nodes whose names and data can stand in markup as they are or escaped. -/
def isPlain : Kind → Bool
  | .fragment => false
  | .element e => e.tag.toList.all Char.isAlphanum && escapesText e.tag &&
      e.attributes.all fun (name, _) => name.toList.all isAttributeChar
  | .text data => data ≠ ""
  | .comment data => !Text.containsText data "-->"

def isText (kind : Kind) : Bool := kind.text?.isSome

def isChildless : Kind → Bool
  | .element e => isVoid e.tag
  | _ => true

def bare : Kind → Kind
  | .element e => .element { e with properties := [] }
  | kind => kind

end Kind

namespace Tree

def kind : Tree → Kind
  | .node kind _ _ => kind

mutual

def isPlain : Tree → Bool
  | .node kind _ children =>
    kind.isPlain && (!kind.isChildless || children.isEmpty) && arePlain children

def arePlain : List Tree → Bool
  | [] => true
  | tree :: trees =>
    tree.isPlain && !(tree.kind.isText && trees.head?.any (·.kind.isText)) && arePlain trees

end

mutual

/-- What markup tells of a tree: not the namespaces and properties. -/
def bare : Tree → Tree
  | .node kind _ children => .node kind.bare .html (bareAll children)

def bareAll : List Tree → List Tree
  | [] => []
  | tree :: trees => tree.bare :: bareAll trees

end

end Tree

namespace Readable
variable {r s : List Char}

/-! Nodes. -/

inductive Lead where
  | element
  | text
  | comment
  /-- The end of the markup, or of the element around. -/
  | ending

def lead : List Char → Lead
  | [] => .ending
  | '<' :: '/' :: _ => .ending
  | '<' :: '!' :: _ => .comment
  | '<' :: _ => .element
  | _ => .text

def leadOf : Kind → Lead
  | .fragment => .ending
  | .element _ => .element
  | .text _ => .text
  | .comment _ => .comment

theorem stops_of_lead_ne_text (h : lead r ≠ .text) : Stops (· != '<') r := by
  intro c hc
  cases r with
  | nil => cases hc
  | cons b r =>
    obtain rfl : b = c := by simpa using hc
    by_contra hb
    have hb : b ≠ '<' := by simpa using hb
    exact h (by unfold lead; split <;> simp_all)

theorem lead_opening {kind : Kind} (hkind : kind.isPlain) (r : List Char) :
    lead ((opening {} none kind).toList ++ r) = leadOf kind := by
  cases kind with
  | fragment => cases hkind
  | element e =>
    have hname : ∀ c ∈ e.tag.toList, c.isAlphanum := by
      simp only [Kind.isPlain, Bool.and_eq_true, List.all_eq_true] at hkind
      exact hkind.1.1
    rw [opening, toList_openTag]
    cases htag : e.tag.toList with
    | nil => cases e.attributes <;> simp [lead, leadOf, attributesMarkup, attributeText]
    | cons c cs =>
      have hc : c.isAlphanum := hname c (by simp [htag])
      have hslash : c ≠ '/' := by rintro rfl; revert hc; decide
      have hmark : c ≠ '!' := by rintro rfl; revert hc; decide
      simp [lead, leadOf, hslash, hmark]
  | text data =>
    have hne : data.toList ≠ [] := by simpa [Kind.isPlain] using hkind
    obtain ⟨c, cs, hdata⟩ := List.exists_cons_of_ne_nil hne
    have hc : ∀ r, lead (escapeChar c ++ r) = .text := by
      intro r
      unfold escapeChar
      split <;> simp_all [lead]
    simp [opening, Render.text, styleIn, hdata, hc, leadOf]
  | comment data => simp [opening, lead, leadOf]

theorem opening_unique {kind kind' : Kind} (hkind : kind.isPlain) (hkind' : kind'.isPlain)
    (hr : kind.isText → lead r ≠ .text) (hs : kind'.isText → lead s ≠ .text)
    (h : (opening {} none kind).toList ++ r = (opening {} none kind').toList ++ s) :
    kind.bare = kind'.bare ∧ r = s := by
  have hlead : leadOf kind = leadOf kind' := by
    rw [← lead_opening hkind r, h, lead_opening hkind' s]
  cases kind <;> cases kind' <;> try cases hlead
  case fragment => cases hkind
  case element e e' =>
    simp only [Kind.isPlain, Bool.and_eq_true, List.all_eq_true] at hkind hkind'
    obtain ⟨htag, hattributes, hrest⟩ :=
      openTag_unique hkind.1.1 hkind'.1.1 hkind.2 hkind'.2 h
    simp only [Kind.bare, htag, hattributes]
    exact ⟨trivial, hrest⟩
  case text data data' =>
    have hescaped (data : String) : ∀ c ∈ data.toList.flatMap escapeChar, (c != '<') = true := by
      intro c hc
      obtain ⟨a, -, ha⟩ := List.mem_flatMap.1 hc
      exact bne_iff_ne.2 fun heq => not_mem_escapeChar a (heq ▸ ha)
    obtain ⟨hdata, hrest⟩ := run_unique (hescaped data) (hescaped data')
      (stops_of_lead_ne_text (hr rfl)) (stops_of_lead_ne_text (hs rfl))
      (by simpa [opening, Render.text, styleIn] using h)
    have hinj := flatMap_injective escapeChar_ne_nil escapeChar_unique hdata
    exact ⟨congrArg Kind.text (String.toList_inj.1 hinj), hrest⟩
  case comment data data' =>
    have hno {data : String} (hdata : (Kind.comment data).isPlain) :
        ¬ "-->".toList <:+: data.toList := by
      rw [← Text.occursIn_iff]
      simpa [Kind.isPlain, Text.containsText] using hdata
    obtain ⟨hdata, hrest⟩ := comment_unique (hno hkind) (hno hkind') (by simpa [opening] using h)
    exact ⟨congrArg Kind.comment (String.toList_inj.1 hdata), hrest⟩

/-! Trees. -/

section
variable {kind : Kind} {space : Namespace} {tree : Tree} {children trees : List Tree}

theorem isPlain_node (h : (Tree.node kind space children).isPlain) :
    kind.isPlain ∧ (kind.isChildless → children = []) ∧ Tree.arePlain children := by
  simp only [Tree.isPlain, Bool.and_eq_true, Bool.or_eq_true, Bool.not_eq_true',
    List.isEmpty_iff] at h
  exact ⟨h.1.1, fun hchildless => h.1.2.resolve_left (by simp [hchildless]), h.2⟩

theorem arePlain_cons (h : Tree.arePlain (tree :: trees)) :
    tree.isPlain ∧ (tree.kind.isText → ∀ next ∈ trees.head?, ¬ next.kind.isText) ∧
      Tree.arePlain trees := by
  simp only [Tree.arePlain, Bool.and_eq_true, Bool.not_eq_true', Bool.and_eq_false_iff,
    Option.any_eq_false] at h
  refine ⟨h.1.1, fun htext next hnext => ?_, h.2⟩
  rw [h.1.2.resolve_left (by simp [htext]) next hnext]
  exact Bool.false_ne_true

theorem isPlain_kind (h : tree.isPlain) : tree.kind.isPlain := by
  obtain ⟨kind, space, children⟩ := tree
  exact (isPlain_node h).1

theorem styleIn_eq {parentTag : Option String} (h : ∀ tag ∈ parentTag, escapesText tag) :
    styleIn {} parentTag = styleIn {} none := by
  cases parentTag with
  | none => rfl
  | some tag =>
    have htag := h tag rfl
    simp only [escapesText, Bool.and_eq_true, Bool.not_eq_true'] at htag
    simp [styleIn, htag]

theorem styleIn_tag? (hkind : kind.isPlain) : styleIn {} kind.tag? = styleIn {} none := by
  refine styleIn_eq fun tag htag => ?_
  cases kind with
  | element e =>
    obtain rfl : e.tag = tag := Option.some.inj htag
    simp only [Kind.isPlain, Bool.and_eq_true] at hkind
    exact hkind.1.2
  | _ => cases htag

theorem toList_markup_append (hkind : kind.isPlain) (r : List Char) :
    ((Tree.node kind space children).markup {} none).toList ++ r = (opening {} none kind).toList ++
      ((Tree.markupAll {} none children).toList ++ ((closing kind).toList ++ r)) := by
  rw [Tree.markup, Tree.markupAll_congr (styleIn_tag? hkind)]
  simp only [String.toList_append, List.append_assoc]

theorem closing_bare : closing kind.bare = closing kind := by cases kind <;> rfl

theorem isChildless_bare : kind.bare.isChildless = kind.isChildless := by cases kind <;> rfl

theorem isChildless_of_isText (h : kind.isText) : kind.isChildless := by
  cases kind with
  | element e => cases h
  | _ => rfl

theorem closing_of_isChildless (h : kind.isChildless) : closing kind = "" := by
  cases kind with
  | element e => exact if_pos h
  | _ => rfl

theorem below_of_isChildless (h : kind.isChildless) (hnone : kind.isChildless → children = [])
    (r : List Char) :
    (Tree.markupAll {} none children).toList ++ ((closing kind).toList ++ r) = r := by
  rw [hnone h, closing_of_isChildless h]
  rfl

theorem lead_below_ne_text (hnone : kind.isChildless → children = [])
    (hr : kind.isText → lead r ≠ .text) (htext : kind.isText) :
    lead ((Tree.markupAll {} none children).toList ++ ((closing kind).toList ++ r)) ≠ .text := by
  rw [below_of_isChildless (isChildless_of_isText htext) hnone]
  exact hr htext

theorem lead_closing (h : ¬ kind.isChildless) (r : List Char) :
    lead ((closing kind).toList ++ r) = .ending := by
  cases kind with
  | element e =>
    rw [Kind.isChildless] at h
    rw [closing, endTag, if_neg h]
    simp [lead]
  | _ => exact absurd rfl h

theorem leadOf_ne_ending (hkind : kind.isPlain) : leadOf kind ≠ .ending := by
  cases kind with
  | fragment => cases hkind
  | _ => nofun

theorem lead_markup_append (h : tree.isPlain) (r : List Char) :
    lead ((tree.markup {} none).toList ++ r) = leadOf tree.kind := by
  obtain ⟨kind, space, children⟩ := tree
  rw [toList_markup_append (isPlain_node h).1, lead_opening (isPlain_node h).1, Tree.kind]

theorem toList_markupAll_cons_append (r : List Char) :
    (Tree.markupAll {} none (tree :: trees)).toList ++ r =
      (tree.markup {} none).toList ++ ((Tree.markupAll {} none trees).toList ++ r) := by
  rw [Tree.markupAll, String.toList_append, List.append_assoc]

theorem lead_markupAll_cons (h : Tree.arePlain (tree :: trees)) (r : List Char) :
    lead ((Tree.markupAll {} none (tree :: trees)).toList ++ r) = leadOf tree.kind := by
  rw [toList_markupAll_cons_append, lead_markup_append (arePlain_cons h).1]

theorem lead_markupAll_ne_text (h : Tree.arePlain (tree :: trees)) (hr : lead r = .ending)
    (htext : tree.kind.isText) : lead ((Tree.markupAll {} none trees).toList ++ r) ≠ .text := by
  obtain ⟨-, hnext, htrees⟩ := arePlain_cons h
  cases trees with
  | nil => simp [Tree.markupAll, hr]
  | cons next trees =>
    rw [lead_markupAll_cons htrees]
    have hkind := hnext htext next rfl
    cases hnode : next.kind <;> simp_all [leadOf, Kind.isText, Kind.text?]

end

mutual

theorem tree_unique : ∀ {t u : Tree} {r s : List Char}, t.isPlain → u.isPlain →
    (t.kind.isText → lead r ≠ .text) → (u.kind.isText → lead s ≠ .text) →
    (t.markup {} none).toList ++ r = (u.markup {} none).toList ++ s → t.bare = u.bare ∧ r = s
  | .node kind _ children, .node kind' _ children', r, s, ht, hu, hr, hs, h => by
    obtain ⟨hkind, hnone, hchildren⟩ := isPlain_node ht
    obtain ⟨hkind', hnone', hchildren'⟩ := isPlain_node hu
    rw [toList_markup_append hkind, toList_markup_append hkind'] at h
    obtain ⟨hbare, hbelow⟩ := opening_unique hkind hkind' (lead_below_ne_text hnone hr)
      (lead_below_ne_text hnone' hs) h
    have hclosing : closing kind = closing kind' := by rw [← closing_bare, hbare, closing_bare]
    have hsame : kind.isChildless = kind'.isChildless := by
      rw [← isChildless_bare, hbare, isChildless_bare]
    by_cases hchildless : kind.isChildless
    · have hchildless' : kind'.isChildless := hsame ▸ hchildless
      rw [below_of_isChildless hchildless hnone, below_of_isChildless hchildless' hnone'] at hbelow
      rw [hnone hchildless, hnone' hchildless', Tree.bare, Tree.bare, hbare]
      exact ⟨rfl, hbelow⟩
    · have hchildless' : ¬ kind'.isChildless := hsame ▸ hchildless
      obtain ⟨hbares, hend⟩ := forest_unique hchildren hchildren' (lead_closing hchildless r)
        (lead_closing hchildless' s) hbelow
      rw [hclosing] at hend
      rw [Tree.bare, Tree.bare, hbare, hbares]
      exact ⟨rfl, List.append_cancel_left hend⟩

theorem forest_unique : ∀ {f g : List Tree} {r s : List Char}, Tree.arePlain f → Tree.arePlain g →
    lead r = .ending → lead s = .ending →
    (Tree.markupAll {} none f).toList ++ r = (Tree.markupAll {} none g).toList ++ s →
    Tree.bareAll f = Tree.bareAll g ∧ r = s
  | [], [], _, _, _, _, _, _, h => ⟨rfl, by simpa [Tree.markupAll] using h⟩
  | [], u :: us, r, s, _, hg, hr, _, h => by
    have hlead := lead_markupAll_cons hg s
    rw [← h, Tree.markupAll, String.toList_empty, List.nil_append, hr] at hlead
    exact absurd hlead.symm (leadOf_ne_ending (isPlain_kind (arePlain_cons hg).1))
  | t :: ts, [], r, s, hf, _, _, hs, h => by
    have hlead := lead_markupAll_cons hf r
    rw [h, Tree.markupAll, String.toList_empty, List.nil_append, hs] at hlead
    exact absurd hlead.symm (leadOf_ne_ending (isPlain_kind (arePlain_cons hf).1))
  | t :: ts, u :: us, r, s, hf, hg, hr, hs, h => by
    rw [toList_markupAll_cons_append, toList_markupAll_cons_append] at h
    obtain ⟨htree, hrest⟩ := tree_unique (arePlain_cons hf).1 (arePlain_cons hg).1
      (lead_markupAll_ne_text hf hr) (lead_markupAll_ne_text hg hs) h
    obtain ⟨htrees, hend⟩ := forest_unique (arePlain_cons hf).2.2 (arePlain_cons hg).2.2 hr hs hrest
    exact ⟨by rw [Tree.bareAll, Tree.bareAll, htree, htrees], hend⟩

end

end Readable

namespace Document
variable {d d' : Document} {ns ms : List NodeId}

/-- The nodes are the roots of a plain forest, and where they stand texts are escaped as below them. -/
structure ListsPlainForest (d : Document) (ns : List NodeId) : Prop where
  wellFormed : d.WellFormed
  arePlain : Tree.arePlain (ns.map d.treeAt)
  escapesText_of_parentTag? : ∀ n ∈ ns, ∀ tag ∈ d.parentTag? n, escapesText tag

theorem ListsPlainForest.join_outerMarkup (h : d.ListsPlainForest ns) :
    String.join (ns.map fun n => d.outerMarkup n) = Tree.markupAll {} none (ns.map d.treeAt) := by
  obtain ⟨hd, -, htags⟩ := h
  induction ns with
  | nil => rfl
  | cons n ns ih =>
    obtain ⟨htag, htags⟩ := List.forall_mem_cons.1 htags
    rw [List.map_cons, String.join_cons, hd.outerMarkup_eq, ih htags, List.map_cons, Tree.markupAll,
      Tree.markup_congr (Readable.styleIn_eq htag)]

/-- From the markup of a plain forest the forest can be told, whatever stands in its texts, comments and
values. -/
theorem eq_of_outerMarkup_eq (h : d.ListsPlainForest ns) (h' : d'.ListsPlainForest ms)
    (heq : String.join (ns.map fun n => d.outerMarkup n) =
      String.join (ms.map fun m => d'.outerMarkup m)) :
    Tree.bareAll (ns.map d.treeAt) = Tree.bareAll (ms.map d'.treeAt) := by
  rw [h.join_outerMarkup, h'.join_outerMarkup] at heq
  have hreadable := Readable.forest_unique (r := []) (s := []) h.arePlain h'.arePlain rfl rfl
    (by rw [heq])
  exact hreadable.1

/-- Data full of marks, and the same in another namespace, at other nodes and with a property. -/
theorem eq_of_outerMarkup_eq_marks :
    let d : Document := { slots := #[
      some { children := [1, 2, 3], kind := .element {
        tag := "p", attributes := [("title", "\"><br>")] } },
      some { kind := .text "</p>&quot;", parent := some 0 },
      some { kind := .element { tag := "br" }, parent := some 0 },
      some { kind := .comment "<!--", parent := some 0 }] }
    let d' : Document := { slots := #[
      some { kind := .comment "<!--", parent := some 4 },
      none,
      some { kind := .text "</p>&quot;", parent := some 4 },
      some { kind := .element { tag := "br" }, parent := some 4 },
      some { ns := .svg, children := [2, 3, 0], kind := .element {
        tag := "p", attributes := [("title", "\"><br>")], properties := [("checked", .bool true)] } }] }
    d.ListsPlainForest [0] ∧ d'.ListsPlainForest [4] ∧
      Tree.bareAll ([0].map d.treeAt) = Tree.bareAll ([4].map d'.treeAt) := by
  intro d d'
  have h : d.ListsPlainForest [0] := ⟨by decide +kernel, by decide +kernel, by decide +kernel⟩
  have h' : d'.ListsPlainForest [4] := ⟨by decide +kernel, by decide +kernel, by decide +kernel⟩
  exact ⟨h, h', eq_of_outerMarkup_eq h h' (by decide +kernel)⟩

end Document
end DomQuery
