import DomQuery.Document.Classes
import DomQuery.Proofs.Document.Slots
import DomQuery.Proofs.Text.Words
import Mathlib.Algebra.Ring.Parity

/-!
Class lists and their edits. An edit works on the words of the `class` attribute and is read back from the
text that it writes, so that the laws of lists of words become laws of documents. What an edit does not
change it does not write either.
-/
namespace DomQuery
open Text

namespace ClassList
variable {wanted : Option Bool} {names list : List String} {name x : String}

/-! Adding and removing are toggling with the answer given. -/

theorem toggle_true (names : List String) : toggle (some true) names = add names := by
  have hone : toggleOne (some true) =
      fun list name => if list.contains name then list else list ++ [name] := by
    funext list name
    simp [toggleOne]
  funext list
  rw [toggle, add, hone]

theorem toggle_false (names : List String) : toggle (some false) names = remove names := by
  funext list
  rw [toggle, remove]
  induction names generalizing list with
  | nil => simp
  | cons name names ih =>
    have hone : toggleOne (some false) list name = list.filter (· != name) := by simp [toggleOne]
    rw [List.foldl_cons, hone, ih, List.filter_filter]
    refine List.filter_congr fun x _ => ?_
    rw [List.contains_cons, Bool.not_or, Bool.and_comm]
    rfl

/-! What is not named stays, in its order. -/

theorem filter_toggleOne {keep : String → Bool} (hname : keep name = false) :
    (toggleOne wanted list name).filter keep = list.filter keep := by
  have hout : (list.filter (· != name)).filter keep = list.filter keep := by
    rw [List.filter_filter]
    refine List.filter_congr fun x _ => ?_
    by_cases hx : x = name <;> simp [hx, hname]
  simp only [toggleOne]
  split
  · split
    · rfl
    · simp [hname]
  · exact hout

theorem filter_toggle {keep : String → Bool} (hnames : ∀ name ∈ names, keep name = false) :
    (toggle wanted names list).filter keep = list.filter keep := by
  rw [toggle]
  induction names generalizing list with
  | nil => rfl
  | cons name names ih =>
    rw [List.foldl_cons, ih fun x hx => hnames x (List.mem_cons_of_mem _ hx),
      filter_toggleOne (hnames name List.mem_cons_self)]

theorem remove_toggle (wanted : Option Bool) (names list : List String) :
    remove names (toggle wanted names list) = remove names list :=
  filter_toggle fun name hname => by simp [hname]

theorem mem_remove : x ∈ remove names list ↔ x ∈ list ∧ x ∉ names := by
  simp [remove, List.mem_filter]

theorem mem_toggle_of_not_mem (hx : x ∉ names) : x ∈ toggle wanted names list ↔ x ∈ list := by
  have hremove := remove_toggle wanted names list
  have hmem : x ∈ remove names (toggle wanted names list) ↔ x ∈ remove names list := by rw [hremove]
  simpa only [mem_remove, hx, not_false_eq_true, and_true] using hmem

/-! What is named. -/

theorem mem_add : x ∈ add names list ↔ x ∈ list ∨ x ∈ names := by
  rw [add]
  induction names generalizing list with
  | nil => simp
  | cons name names ih =>
    rw [List.foldl_cons, ih, List.mem_cons]
    split
    · rename_i hname
      have hname : name ∈ list := List.contains_iff_mem.1 hname
      constructor
      · exact Or.imp_right .inr
      · rintro (hx | rfl | hx)
        · exact .inl hx
        · exact .inl hname
        · exact .inr hx
    · rw [List.mem_append, List.mem_singleton, or_assoc]

theorem mem_toggleOne : x ∈ toggleOne none list name ↔ (x = name ↔ x ∉ list) := by
  by_cases hname : name ∈ list <;> by_cases hx : x = name <;> simp_all [toggleOne]

theorem mem_toggle : x ∈ toggle none names list ↔ (x ∈ list ↔ Even (names.count x)) := by
  rw [toggle]
  induction names generalizing list with
  | nil => simp
  | cons name names ih =>
    rw [List.foldl_cons, ih, mem_toggleOne]
    by_cases hx : x = name
    · subst hx
      rw [List.count_cons_self, Nat.even_add_one]
      tauto
    · rw [List.count_cons_of_ne (Ne.symm hx)]
      tauto

/-! Edits one after the other. -/

theorem remove_add (hnames : ∀ name ∈ names, name ∉ list) : remove names (add names list) = list := by
  rw [← toggle_true, remove_toggle, remove, List.filter_eq_self]
  intro x hx
  have hnot : x ∉ names := fun hname => hnames x hname hx
  simp [hnot]

theorem add_of_subset (hnames : ∀ name ∈ names, name ∈ list) : add names list = list := by
  rw [add]
  induction names with
  | nil => rfl
  | cons name names ih =>
    rw [List.foldl_cons, if_pos (List.contains_iff_mem.2 (hnames name List.mem_cons_self))]
    exact ih fun x hx => hnames x (List.mem_cons_of_mem _ hx)

theorem add_add (names list : List String) : add names (add names list) = add names list :=
  add_of_subset fun _ hname => mem_add.2 (.inr hname)

theorem remove_remove (names list : List String) :
    remove names (remove names list) = remove names list := by
  have hremove := remove_toggle (some false) names list
  rwa [toggle_false] at hremove

theorem mem_toggle_toggle : x ∈ toggle none names (toggle none names list) ↔ x ∈ list := by
  rw [mem_toggle, mem_toggle]
  tauto

theorem isWord_of_mem_toggle (hnames : ∀ name ∈ names, IsWord name) (hlist : ∀ x ∈ list, IsWord x)
    (hx : x ∈ toggle wanted names list) : IsWord x := by
  by_cases hname : x ∈ names
  · exact hnames x hname
  · exact hlist x ((mem_toggle_of_not_mem hname).1 hx)

end ClassList

theorem Entries.remove_set {α : Type} (entries : Entries α) (name : String) (value : α) :
    (entries.set name value).remove name = entries.remove name := by
  induction entries with
  | nil => simp [set, remove]
  | cons entry rest ih =>
    obtain ⟨key, old⟩ := entry
    rw [set]
    split
    · rename_i hkey
      simp [remove, hkey]
    · rename_i hkey
      rw [remove, List.filter_cons_of_pos (by simpa using hkey), ← remove, ih, remove, remove,
        List.filter_cons_of_pos (by simpa using hkey)]

namespace Element
variable {e : Element} {change : List String → List String}

theorem isWord_of_mem_classList {word : String} (h : word ∈ e.classList) : IsWord word := by
  rw [classList] at h
  cases hclass : e.attributes.get? "class" with
  | none => simp [hclass] at h
  | some text =>
    rw [hclass] at h
    exact isWord_of_mem_words h

theorem editClasses_of_eq (h : change e.classList = e.classList) : e.editClasses change = e := by
  rw [editClasses, if_pos h]

theorem classList_editClasses (h : ∀ word ∈ change e.classList, IsWord word) :
    (e.editClasses change).classList = change e.classList := by
  by_cases heq : change e.classList = e.classList
  · rw [editClasses_of_eq heq, heq]
  · rw [editClasses, if_neg heq, classList, Entries.get?_set, if_pos rfl, Option.map_some,
      Option.getD_some, words_intercalate h]

/-- Everything but the `class` attribute is as before. -/
structure SameBesides (e e' : Element) : Prop where
  tag : e'.tag = e.tag
  properties : e'.properties = e.properties
  attributes : e'.attributes.remove "class" = e.attributes.remove "class"

theorem sameBesides_editClasses (e : Element) (change : List String → List String) :
    e.SameBesides (e.editClasses change) := by
  rw [editClasses]
  split
  · exact ⟨rfl, rfl, rfl⟩
  · exact ⟨rfl, rfl, Entries.remove_set ..⟩

end Element

namespace Document
variable {d d' : Document} {n m : NodeId} {nodes : List NodeId} {f : Element → Element}
  {change : List String → List String} {names : String} {wanted : Option Bool}

/-! What stays where it is. -/

/-- The same nodes in the same places; at most elements of the list hold other data. -/
structure Stays (d d' : Document) (nodes : List NodeId) : Prop where
  node? : ∀ n, n ∉ nodes ∨ ¬ d.isElement n → d'.node? n = d.node? n
  isElement : ∀ n, d'.isElement n = d.isElement n
  parent? : ∀ n, d'.parent? n = d.parent? n
  children : ∀ n, d'.children n = d.children n
  ns : ∀ n, d'.ns n = d.ns n
  fresh : d'.fresh = d.fresh
  roots : d'.roots = d.roots

theorem Stays.refl (d : Document) (nodes : List NodeId) : d.Stays d nodes :=
  ⟨fun _ _ => rfl, fun _ => rfl, fun _ => rfl, fun _ => rfl, fun _ => rfl, rfl, rfl⟩

theorem Stays.cons {d'' : Document} (h : d.Stays d' [n]) (h' : d'.Stays d'' nodes) :
    d.Stays d'' (n :: nodes) where
  node? m hm := by
    rw [List.mem_cons, not_or] at hm
    have hfirst : m ∉ [n] ∨ ¬ d.isElement m := hm.imp_left fun hm => by simpa using hm.1
    rw [h'.node? m (hm.imp And.right fun hm => by rwa [h.isElement]), h.node? m hfirst]
  isElement m := (h'.isElement m).trans (h.isElement m)
  parent? m := (h'.parent? m).trans (h.parent? m)
  children m := (h'.children m).trans (h.children m)
  ns m := (h'.ns m).trans (h.ns m)
  fresh := h'.fresh.trans h.fresh
  roots := h'.roots.trans h.roots

theorem stays_modifyElement (d : Document) (n : NodeId) (f : Element → Element) :
    d.Stays (d.modifyElement n f) [n] where
  node? m hm := by
    rcases hm with hm | hm
    · rw [modifyElement, node?_modify, if_neg (by simpa using hm)]
    · by_cases hmn : m = n
      · subst hmn
        rw [modifyElement_eq_self]
        intro e he
        simp [isElement, he] at hm
      · rw [modifyElement, node?_modify, if_neg hmn]
  isElement m := by
    rw [isElement, isElement, element?_modifyElement]
    split
    · rename_i hm
      rw [hm, Option.isSome_map]
    · rfl
  parent? m := parent?_modify fun node => by split <;> rfl
  children m := children_modify fun node => by split <;> rfl
  ns m := ns_modify fun node => by split <;> rfl
  fresh := fresh_modify ..
  roots := rfl

/-! Class lists. -/

theorem stays_editClasses (d : Document) (change : List String → List String) (nodes : List NodeId) :
    d.Stays (d.editClasses change nodes) nodes := by
  rw [editClasses]
  induction nodes generalizing d with
  | nil => exact .refl d []
  | cons n nodes ih => exact (d.stays_modifyElement n _).cons (ih _)

theorem element?_editClasses (hnodes : nodes.Nodup) (change : List String → List String) :
    (d.editClasses change nodes).element? m =
      if m ∈ nodes then (d.element? m).map (Element.editClasses change) else d.element? m := by
  rw [editClasses]
  induction nodes generalizing d with
  | nil => rfl
  | cons n nodes ih =>
    obtain ⟨hn, hnodes⟩ := List.nodup_cons.1 hnodes
    rw [List.foldl_cons, ih hnodes, element?_modifyElement]
    by_cases hm : m = n
    · subst hm
      simp [hn]
    · simp [hm]

theorem editClasses_eq_self
    (h : ∀ n ∈ nodes, ∀ e, d.element? n = some e → change e.classList = e.classList) :
    d.editClasses change nodes = d := by
  rw [editClasses]
  induction nodes with
  | nil => rfl
  | cons n nodes ih =>
    have hself : d.modifyElement n (Element.editClasses change) = d :=
      modifyElement_eq_self fun e he => Element.editClasses_of_eq (h n List.mem_cons_self e he)
    rw [List.foldl_cons, hself]
    exact ih fun m hm => h m (List.mem_cons_of_mem _ hm)

/-- The words of the `class` attribute; a node that is no element or has none lists nothing. -/
def classList (d : Document) (n : NodeId) : List String :=
  ((d.element? n).map (·.classList)).getD []

section Words
variable (hnodes : nodes.Nodup)
  (hchange : ∀ list, (∀ word ∈ list, IsWord word) → ∀ word ∈ change list, IsWord word)
include hnodes hchange

theorem classList_editClasses (n : NodeId) : (d.editClasses change nodes).classList n =
    if n ∈ nodes ∧ d.isElement n then change (d.classList n) else d.classList n := by
  rw [classList, classList, element?_editClasses hnodes]
  cases he : d.element? n with
  | none => simp [isElement, he]
  | some e =>
    have hread : (e.editClasses change).classList = change e.classList :=
      Element.classList_editClasses (hchange _ fun _ => Element.isWord_of_mem_classList)
    by_cases hn : n ∈ nodes <;> simp [hn, isElement, he, hread]

theorem element?_editClasses_of_eq
    (hlist : (d.editClasses change nodes).classList n = d.classList n) :
    (d.editClasses change nodes).element? n = d.element? n := by
  rw [classList_editClasses hnodes hchange] at hlist
  rw [element?_editClasses hnodes]
  split
  · rename_i hn
    cases he : d.element? n with
    | none => rfl
    | some e =>
      rw [classList, he, if_pos ⟨hn, by simp [isElement, he]⟩] at hlist
      rw [Option.map_some, Element.editClasses_of_eq hlist]
  · rfl

theorem editClasses_editClasses (hidem : ∀ list, change (change list) = change list) :
    (d.editClasses change nodes).editClasses change nodes = d.editClasses change nodes := by
  refine editClasses_eq_self fun n hn e he => ?_
  have helement : d.isElement n := by
    rw [← (d.stays_editClasses change nodes).isElement, isElement, he]
    rfl
  have hread : (d.editClasses change nodes).classList n = e.classList := by
    rw [classList, he]
    rfl
  have hlist : (d.editClasses change nodes).classList n = change (d.classList n) := by
    rw [classList_editClasses hnodes hchange, if_pos ⟨hn, helement⟩]
  rw [← hread, hlist, hidem]

end Words

theorem isWord_of_mem_toggle_words (names : String) (wanted : Option Bool) (list : List String)
    (hlist : ∀ word ∈ list, IsWord word) :
    ∀ word ∈ ClassList.toggle wanted (words names) list, IsWord word :=
  fun _ => ClassList.isWord_of_mem_toggle (fun _ => isWord_of_mem_words) hlist

theorem toggleClass_true (d : Document) (names : String) (nodes : List NodeId) :
    d.toggleClass names (some true) nodes = d.addClass names nodes := by
  rw [toggleClass, addClass, ClassList.toggle_true]

theorem toggleClass_false (d : Document) (names : String) (nodes : List NodeId) :
    d.toggleClass names (some false) nodes = d.removeClass names nodes := by
  rw [toggleClass, removeClass, ClassList.toggle_false]

theorem classList_toggleClass (hnodes : nodes.Nodup) (n : NodeId) :
    (d.toggleClass names wanted nodes).classList n = if n ∈ nodes ∧ d.isElement n then
      ClassList.toggle wanted (words names) (d.classList n) else d.classList n :=
  classList_editClasses hnodes (isWord_of_mem_toggle_words names wanted) n

theorem classList_addClass (hnodes : nodes.Nodup) (n : NodeId) :
    (d.addClass names nodes).classList n = if n ∈ nodes ∧ d.isElement n then
      ClassList.add (words names) (d.classList n) else d.classList n := by
  rw [← toggleClass_true, classList_toggleClass hnodes, ClassList.toggle_true]

theorem classList_removeClass (hnodes : nodes.Nodup) (n : NodeId) :
    (d.removeClass names nodes).classList n = if n ∈ nodes ∧ d.isElement n then
      ClassList.remove (words names) (d.classList n) else d.classList n := by
  rw [← toggleClass_false, classList_toggleClass hnodes, ClassList.toggle_false]

/-- What an edit of the classes in `names` leaves as it is. -/
structure KeepsBesides (d d' : Document) (nodes : List NodeId) (names : List String) : Prop
    extends d.Stays d' nodes where
  /-- Other classes stay, in their order. -/
  classes : ∀ n, (d'.classList n).filter (· ∉ names) = (d.classList n).filter (· ∉ names)
  /-- Where the list stays, so does the text of the attribute. -/
  text : ∀ n, d'.classList n = d.classList n → d'.attribute? n "class" = d.attribute? n "class"
  element : ∀ n e, d.element? n = some e → ∃ e', d'.element? n = some e' ∧ e.SameBesides e'

theorem keepsBesides_toggleClass (d : Document) (hnodes : nodes.Nodup) (names : String)
    (wanted : Option Bool) :
    d.KeepsBesides (d.toggleClass names wanted nodes) nodes (words names) where
  toStays := d.stays_editClasses _ nodes
  classes n := by
    rw [classList_toggleClass hnodes]
    split
    · exact ClassList.filter_toggle fun name hname => by simp [hname]
    · rfl
  text n hlist := by
    rw [attribute?, attribute?, toggleClass,
      element?_editClasses_of_eq hnodes (isWord_of_mem_toggle_words names wanted) hlist]
  element n e he := by
    rw [toggleClass, element?_editClasses hnodes, he]
    split
    · exact ⟨_, rfl, e.sameBesides_editClasses _⟩
    · exact ⟨e, rfl, rfl, rfl, rfl⟩

/-- The laws of adding, removing and toggling the classes of a text at the nodes of a list. -/
structure ClassLaws (d : Document) (nodes : List NodeId) (names : String) : Prop where
  mem_added : ∀ n ∈ nodes, d.isElement n → ∀ x,
    x ∈ (d.addClass names nodes).classList n ↔ x ∈ d.classList n ∨ x ∈ words names
  mem_removed : ∀ n ∈ nodes, d.isElement n → ∀ x,
    x ∈ (d.removeClass names nodes).classList n ↔ x ∈ d.classList n ∧ x ∉ words names
  mem_toggled : ∀ n ∈ nodes, d.isElement n → ∀ x,
    x ∈ (d.toggleClass names none nodes).classList n ↔
      (x ∈ d.classList n ↔ Even ((words names).count x))
  toggle_true : d.toggleClass names (some true) nodes = d.addClass names nodes
  toggle_false : d.toggleClass names (some false) nodes = d.removeClass names nodes
  remove_add : ∀ n, (∀ x ∈ words names, x ∉ d.classList n) →
    ((d.addClass names nodes).removeClass names nodes).classList n = d.classList n
  toggle_toggle : ∀ n x,
    x ∈ ((d.toggleClass names none nodes).toggleClass names none nodes).classList n ↔
      x ∈ d.classList n
  add_add : (d.addClass names nodes).addClass names nodes = d.addClass names nodes
  remove_remove : (d.removeClass names nodes).removeClass names nodes = d.removeClass names nodes
  keeps_add : d.KeepsBesides (d.addClass names nodes) nodes (words names)
  keeps_remove : d.KeepsBesides (d.removeClass names nodes) nodes (words names)
  keeps_toggle : ∀ wanted, d.KeepsBesides (d.toggleClass names wanted nodes) nodes (words names)

theorem classLaws (d : Document) (hnodes : nodes.Nodup) (names : String) :
    d.ClassLaws nodes names where
  mem_added n hn he x := by rw [classList_addClass hnodes, if_pos ⟨hn, he⟩, ClassList.mem_add]
  mem_removed n hn he x := by rw [classList_removeClass hnodes, if_pos ⟨hn, he⟩, ClassList.mem_remove]
  mem_toggled n hn he x := by rw [classList_toggleClass hnodes, if_pos ⟨hn, he⟩, ClassList.mem_toggle]
  toggle_true := d.toggleClass_true names nodes
  toggle_false := d.toggleClass_false names nodes
  remove_add n hn := by
    have helement : (d.addClass names nodes).isElement n = d.isElement n :=
      (d.stays_editClasses _ nodes).isElement n
    rw [classList_removeClass hnodes, classList_addClass hnodes, helement]
    split
    · exact ClassList.remove_add hn
    · rfl
  toggle_toggle n x := by
    rw [classList_toggleClass hnodes, classList_toggleClass hnodes,
      (d.keepsBesides_toggleClass hnodes names none).isElement]
    split
    · exact ClassList.mem_toggle_toggle
    · rfl
  add_add := by
    simp only [← toggleClass_true]
    refine editClasses_editClasses hnodes (isWord_of_mem_toggle_words names _) fun list => ?_
    rw [ClassList.toggle_true, ClassList.add_add]
  remove_remove := by
    simp only [← toggleClass_false]
    refine editClasses_editClasses hnodes (isWord_of_mem_toggle_words names _) fun list => ?_
    rw [ClassList.toggle_false, ClassList.remove_remove]
  keeps_add := d.toggleClass_true names nodes ▸ d.keepsBesides_toggleClass hnodes names _
  keeps_remove := d.toggleClass_false names nodes ▸ d.keepsBesides_toggleClass hnodes names _
  keeps_toggle := d.keepsBesides_toggleClass hnodes names

/-- A list with blanks of all sorts and a class given twice, an element without classes, and a text. -/
theorem classLaws_duplicates :
    let d : Document := { slots := #[
      some { kind := .element { tag := "i", attributes := [("id", "x"), ("class", " b\ta  b\n")] } },
      some { kind := .element { tag := "i" } },
      some { kind := .text "a" }] }
    [2, 0, 1].Nodup ∧ ¬ (words "c d c").Nodup ∧
      ((d.addClass "c d c" [2, 0, 1]).removeClass "c d c" [2, 0, 1]).classList 0 = ["b", "a", "b"] ∧
      "a" ∈ ((d.toggleClass "a b a" none [2, 0, 1]).toggleClass "a b a" none [2, 0, 1]).classList 0 ∧
      (d.removeClass "c" [2, 0, 1]).attribute? 0 "class" = some " b\ta  b\n" := by
  intro d
  have hnodes : [2, 0, 1].Nodup := by decide
  have hlist : d.classList 0 = ["b", "a", "b"] := by decide +kernel
  have hsame : (d.removeClass "c" [2, 0, 1]).classList 0 = d.classList 0 := by decide +kernel
  refine ⟨hnodes, by decide +kernel, ?_, ?_, ?_⟩
  · rw [← hlist]
    exact (classLaws d hnodes "c d c").remove_add 0 (by decide +kernel)
  · exact ((classLaws d hnodes "a b a").toggle_toggle 0 "a").2 (by decide +kernel)
  · rw [(classLaws d hnodes "c").keeps_remove.text 0 hsame]
    rfl

end Document
end DomQuery
