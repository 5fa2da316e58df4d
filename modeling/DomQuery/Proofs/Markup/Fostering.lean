import DomQuery.Proofs.Markup.Construction.Edits
import DomQuery.Proofs.Markup.LooseText
import Mathlib

/-!
Text in tables. Text that markup has misplaced in a table is given to the `table` element itself and stays
there; in the rows of a table and the groups of rows there is no text but layout.
-/
namespace DomQuery
variable {d d' : Document} {n m p : NodeId} {label : Namespace × String} {text : String}

def Node.label? (node : Node) : Option (Namespace × String) :=
  match node.kind with
  | .element e => some (node.ns, e.tag)
  | .comment _ => some (.html, "")
  | _ => none

namespace Document

def label? (d : Document) (n : NodeId) : Option (Namespace × String) := (d.node? n).bind Node.label?

theorem label?_eq_data? : d.label? n = (d.data? n).bind fun (kind, ns) => Node.label? { kind, ns } := by
  rw [label?, data?, Option.bind_map]
  rfl

theorem label?_congr (h : d'.data? n = d.data? n) : d'.label? n = d.label? n := by
  rw [label?_eq_data?, label?_eq_data?, h]

theorem isAllocated_of_label? (h : d.label? n = some label) : d.isAllocated n := by
  obtain ⟨node, hnode, -⟩ := Option.bind_eq_some_iff.1 h
  exact Option.isSome_iff_exists.2 ⟨node, hnode⟩

theorem text?_of_label? (h : d.label? n = some label) : d.text? n = none := by
  obtain ⟨⟨kind, ns, parent, children⟩, hnode, hlabel⟩ := Option.bind_eq_some_iff.1 h
  rw [text?, kind?, hnode]
  cases kind <;> first | rfl | cases hlabel

theorem not_isLeaf_of_label? (h : d.label? n = some label) (hname : label.2 ≠ "") : ¬ d.isLeaf n := by
  obtain ⟨⟨kind, ns, parent, children⟩, hnode, hlabel⟩ := Option.bind_eq_some_iff.1 h
  rw [isLeaf, kind?, hnode]
  cases kind with
  | element e => exact Bool.false_ne_true
  | comment text =>
    obtain rfl := Option.some.inj hlabel
    exact absurd rfl hname
  | text text => cases hlabel
  | fragment => cases hlabel

theorem not_isFragment_of_label? (h : d.label? n = some label) : ¬ d.isFragment n := by
  obtain ⟨⟨kind, ns, parent, children⟩, hnode, hlabel⟩ := Option.bind_eq_some_iff.1 h
  rw [isFragment, kind?, hnode]
  cases kind with
  | fragment => cases hlabel
  | element | comment | text => exact Bool.false_ne_true

theorem label?_create (d : Document) (kind : Kind) (ns : Namespace) (n : NodeId) :
    (d.create kind ns).1.label? n = if n = d.fresh then Node.label? { kind, ns } else d.label? n := by
  rw [label?, create, node?_add]
  split <;> rfl

theorem label?_fresh (d : Document) : d.label? d.fresh = none := by
  rw [label?, node?_of_le (Nat.le_refl _)]
  rfl

theorem label?_putText (d : Document) (spot : Spot) (text : String) (n : NodeId) :
    (d.putText spot text).label? n = d.label? n := by
  refine (label?_congr (data?_tryPut _ _ _ n)).trans ((label?_create d (.text text) .html n).trans ?_)
  split
  · rename_i hn
    rw [hn, label?_fresh]
    rfl
  · rfl

theorem label?_appendText (d : Document) (p : NodeId) (text : String) (n : NodeId) :
    (d.appendText p text).label? n = d.label? n := by
  rw [appendText]
  split
  · exact label?_putText d _ text n
  split
  · exact label?_putText d _ text n
  · rw [label?, label?, node?_modify]
    split
    · rename_i hn
      rw [hn, Option.bind_map]
      refine congrArg _ (funext fun node => ?_)
      obtain ⟨kind, ns, parent, children⟩ := node
      cases kind <;> rfl
    · rfl

end Document

/-! Sites. -/

namespace Markup.Site
variable {s : Site} {known : List (Namespace × String)} {edits : List Edit} {edit : Edit}

/-- The handles stand for what has been made, in the order in which they have been given out. -/
structure Labelled (known : List (Namespace × String)) (s : Site) : Prop extends s.Sound where
  size : s.nodes.size = known.length
  label : ∀ (handle : Handle) (n : NodeId), s.nodes[handle]? = some n → s.document.label? n = known[handle]?

theorem append_keeps_labels (s : Site) (parent : Option Handle) (addition : Addition) :
    (s.append parent addition).nodes = s.nodes ∧
      ∀ n, (s.append parent addition).document.label? n = s.document.label? n := by
  cases addition with
  | node handle =>
    rw [append]
    split
    · exact ⟨rfl, fun n => Document.label?_congr (Document.data?_tryPut _ _ _ n)⟩
    · exact ⟨rfl, fun _ => rfl⟩
  | text text =>
    rw [append]
    split
    · exact ⟨rfl, Document.label?_appendText _ _ _⟩
    · exact ⟨rfl, fun _ => rfl⟩

theorem appendBefore_keeps_labels (s : Site) (sibling : Handle) (addition : Addition) :
    (s.appendBefore sibling addition).nodes = s.nodes ∧
      ∀ n, (s.appendBefore sibling addition).document.label? n = s.document.label? n := by
  cases addition with
  | node handle =>
    rw [appendBefore]
    split
    · exact ⟨rfl, fun n => Document.label?_congr (Document.data?_tryPut _ _ _ n)⟩
    · exact ⟨rfl, fun _ => rfl⟩
  | text text =>
    rw [appendBefore]
    split
    · exact ⟨rfl, Document.label?_putText _ _ _⟩
    · exact ⟨rfl, fun _ => rfl⟩

theorem apply_of_unlabelled (s : Site) (hedit : edit.label? = none) : (s.apply edit).nodes = s.nodes ∧
    ∀ n, (s.apply edit).document.label? n = s.document.label? n := by
  cases edit with
  | element | comment => cases hedit
  | insert point addition =>
    cases point with
    | inside parent => exact append_keeps_labels s parent addition
    | before sibling => exact appendBefore_keeps_labels s sibling addition
    | misplaced table around => exact append_keeps_labels s (some table) addition
  | detach node =>
    rw [Site.apply]
    split
    · exact ⟨rfl, fun n => Document.label?_congr (Document.data?_detach _ _ n)⟩
    · exact ⟨rfl, fun _ => rfl⟩
  | moveChildren source target =>
    rw [Site.apply]
    split
    · exact ⟨rfl, fun n => Document.label?_congr (Document.data?_tryPutAll _ _ _ n)⟩
    · exact ⟨rfl, fun _ => rfl⟩

namespace Labelled
variable (h : s.Labelled known)
include h

theorem exists_label {handle : Handle} (hn : s.nodes[handle]? = some n) :
    ∃ label, known[handle]? = some label ∧ s.document.label? n = some label := by
  have hlt := h.size ▸ (Array.getElem?_eq_some_iff.1 hn).1
  have hknown := List.getElem?_eq_getElem hlt
  exact ⟨_, hknown, (h.label handle n hn).trans hknown⟩

theorem add {kind : Kind} {ns : Namespace} (hlabel : Node.label? { kind, ns } = some label) :
    (s.add kind ns).Labelled (known ++ [label]) where
  toSound := h.toSound.add kind ns
  size := by
    rw [List.length_append, ← h.size]
    exact Array.size_push _
  label handle n hn := by
    refine (Document.label?_create s.document kind ns n).trans ?_
    replace hn : (s.nodes.push s.document.fresh)[handle]? = some n := hn
    rw [Array.getElem?_push, h.size] at hn
    split at hn
    · rename_i hhandle
      rw [if_pos (Option.some.inj hn).symm, hhandle, List.getElem?_concat_length, hlabel]
    · have hallocated := h.isAllocated n (Array.mem_of_getElem? hn)
      obtain ⟨label, hknown, -⟩ := h.exists_label hn
      rw [if_neg (Nat.ne_of_lt (Document.lt_fresh hallocated)), h.label handle n hn, hknown,
        getElem?_mono (List.prefix_append known _) hknown]

theorem apply (edit : Edit) : (s.apply edit).Labelled (known ++ edit.label?.toList) := by
  cases hlabel : edit.label? with
  | none =>
    obtain ⟨hnodes, hsame⟩ := apply_of_unlabelled s hlabel
    rw [Option.toList_none, List.append_nil]
    exact {
      toSound := h.toSound.apply edit
      size := hnodes ▸ h.size
      label := fun handle n hn => (hsame n).trans (h.label handle n (hnodes ▸ hn)) }
  | some label =>
    cases edit with
    | element tag ns attributes => exact h.add hlabel
    | comment text => exact h.add hlabel
    | insert | detach | moveChildren => cases hlabel

end Labelled

/-- Some edit hands over text that is more than layout, as misplaced in a table. -/
def TakesMisplaced (s : Site) (edits : List Edit) (p : NodeId) : Prop :=
  ∃ table around text, s.nodes[table]? = some p ∧ .insert (.misplaced table around) (.text text) ∈ edits ∧
    ¬ IsLayout text

theorem takesMisplaced_concat : s.TakesMisplaced (edits ++ [edit]) p ↔ s.TakesMisplaced edits p ∨
    ∃ table around text, s.nodes[table]? = some p ∧ .insert (.misplaced table around) (.text text) = edit ∧
      ¬ IsLayout text := by
  simp only [TakesMisplaced, List.mem_append, List.mem_singleton, or_and_right, and_or_left, exists_or]

/-- The parts of tables hold loose text exactly where it has been handed over for them. -/
structure Tabled (edits : List Edit) (s : Site) : Prop extends s.Labelled (labels edits) where
  loose : ∀ p name, s.document.label? p = some (.html, name) → name ∈ Construction.tableParts →
    (s.document.HasLooseText p ↔ s.TakesMisplaced edits p)

theorem label_of_misplaced (hedits : AptThroughout edits) {table around : Handle}
    (hmem : .insert (.misplaced table around) (.text text) ∈ edits) :
    (labels edits)[table]? = some (.html, "table") := by
  obtain ⟨before, after, rfl⟩ := List.append_of_mem hmem
  have hlabel := hedits before (.insert (.misplaced table around) (.text text)) ⟨after, by simp⟩
  refine getElem?_mono ?_ hlabel
  rw [labels_append]
  exact List.prefix_append ..

namespace Labelled
variable (h : s.Labelled known)
include h

theorem text?_node {handle : Handle} (hn : s.nodes[handle]? = some n) : s.document.text? n = none :=
  let ⟨_, _, hlabel⟩ := h.exists_label hn
  Document.text?_of_label? hlabel

theorem hasLooseText_insertNode (node : Handle) (point : InsertionPoint) :
    (s.insert (.node node) point).document.HasLooseText p ↔ s.document.HasLooseText p := by
  have happend (parent : Option Handle) :
      (s.append parent (.node node)).document.HasLooseText p ↔ s.document.HasLooseText p := by
    rw [append]
    split
    · rename_i q n hq hn
      exact h.wellFormed.hasLooseText_tryPut (h.isAllocated_node hn) (h.isAllocated_parent hq) (h.text?_node hn)
    · rfl
  cases point with
  | inside parent => exact happend parent
  | misplaced table around => exact happend (some table)
  | before sibling =>
    rw [Site.insert, appendBefore]
    split
    · rename_i b n hb hn
      exact h.wellFormed.hasLooseText_tryPut (h.isAllocated_node hn) (h.isAllocated_node hb) (h.text?_node hn)
    · rfl

theorem hasLooseText_appendText (hleaf : ¬ s.document.isLeaf p) (parent : Option Handle) (text : String) :
    (s.append parent (.text text)).document.HasLooseText p ↔
      s.document.HasLooseText p ∨ s.parent? parent = some p ∧ ¬ IsLayout text := by
  rw [append]
  cases hq : s.parent? parent with
  | none => simp
  | some q =>
    refine (h.wellFormed.hasLooseText_appendText (h.isAllocated_parent hq) hleaf).trans ?_
    rw [Option.some_inj, eq_comm]

/-- An edit that makes nothing gives a part of a table loose text only as what is misplaced there. -/
theorem hasLooseText_apply (hedit : edit.Apt known) (hlabel : edit.label? = none)
    {name : String} (hp : s.document.label? p = some (.html, name)) (hname : name ∈ Construction.tableParts) :
    (s.apply edit).document.HasLooseText p ↔ s.document.HasLooseText p ∨
      ∃ table around text, s.nodes[table]? = some p ∧
        .insert (.misplaced table around) (.text text) = edit ∧ ¬ IsLayout text := by
  have hunbound {handle : Handle} {n : NodeId} (hbound : Unbound known handle)
      (hn : s.nodes[handle]? = some n) : p ≠ n := by
    rintro rfl
    obtain ⟨label, hlabel, hapart⟩ := hbound
    obtain rfl := Option.some.inj (hp.symm.trans ((h.label handle p hn).trans hlabel))
    exact hapart rfl hname
  have hleaf : ¬ s.document.isLeaf p := Document.not_isLeaf_of_label? hp fun hnone => by
    rw [show name = "" from hnone] at hname
    exact absurd hname (by decide)
  cases edit with
  | element | comment => cases hlabel
  | insert point addition =>
    cases addition with
    | node handle =>
      simp only [Edit.insert.injEq, reduceCtorEq, false_and, and_false, exists_false, or_false]
      exact h.hasLooseText_insertNode handle point
    | text text =>
      cases point with
      | before sibling => exact hedit.elim
      | misplaced table around =>
        refine (h.hasLooseText_appendText hleaf (some table) text).trans (or_congr_right ?_)
        constructor
        · rintro ⟨hn, hloose⟩
          exact ⟨table, around, text, hn, rfl, hloose⟩
        · rintro ⟨_, _, _, hn, ⟨⟩, hloose⟩
          exact ⟨hn, hloose⟩
      | inside parent =>
        simp only [Edit.insert.injEq, reduceCtorEq, false_and, and_false, exists_false, or_false]
        refine (h.hasLooseText_appendText hleaf parent text).trans (or_iff_left ?_)
        rintro ⟨hn, hloose⟩
        cases parent with
        | none =>
          obtain rfl := Option.some.inj hn
          exact Document.not_isFragment_of_label? hp h.isFragment
        | some handle =>
          obtain ⟨label, hlabel, hlayout⟩ := hedit
          obtain rfl := Option.some.inj (hp.symm.trans ((h.label handle p hn).trans hlabel))
          exact hloose (hlayout rfl hname)
  | detach node =>
    simp only [reduceCtorEq, false_and, and_false, exists_false, or_false]
    rw [Site.apply]
    split
    · rename_i n hn
      exact h.wellFormed.hasLooseText_detach (h.text?_node hn)
    · rfl
  | moveChildren source target =>
    simp only [reduceCtorEq, false_and, and_false, exists_false, or_false]
    rw [Site.apply]
    split
    · rename_i a b ha hb
      exact h.wellFormed.hasLooseText_moveChildren (h.isAllocated_node hb) (hunbound hedit.1 ha)
        (hunbound hedit.2 hb)
    · rfl

end Labelled

theorem takesMisplaced_add (hsize : s.nodes.size = (labels edits).length) (hedits : AptThroughout edits)
    (kind : Kind) (ns : Namespace) : (s.add kind ns).TakesMisplaced edits p ↔ s.TakesMisplaced edits p := by
  refine exists_congr fun table => exists_congr fun around => exists_congr fun text => ?_
  refine ⟨fun ⟨hn, hmem, hloose⟩ => ⟨?_, hmem, hloose⟩, fun ⟨hn, hmem, hloose⟩ => ⟨?_, hmem, hloose⟩⟩
  · have hlt := hsize ▸ (List.getElem?_eq_some_iff.1 (label_of_misplaced hedits hmem)).1
    exact (Array.getElem?_push.trans (if_neg (Nat.ne_of_lt hlt))).symm.trans hn
  · have hlt := (Array.getElem?_eq_some_iff.1 hn).1
    exact (Array.getElem?_push.trans (if_neg (Nat.ne_of_lt hlt))).trans hn

theorem Tabled.add (h : s.Tabled edits) (kind : Kind) (ns : Namespace)
    {name : String} (hp : (s.add kind ns).document.label? p = some (.html, name))
    (hname : name ∈ Construction.tableParts) :
    (s.add kind ns).document.HasLooseText p ↔ s.TakesMisplaced edits p := by
  refine (h.wellFormed.hasLooseText_create kind ns).trans ?_
  rw [show (s.add kind ns).document.label? p = _ from Document.label?_create s.document kind ns p] at hp
  split at hp
  · -- what is new has no text, and no edit before can have named it
    rename_i hnew
    refine iff_of_false ?_ ?_
    · rintro ⟨m, hm, -⟩
      exact absurd (Document.lt_fresh (Document.isAllocated_of_mem_children hm)) (hnew ▸ Nat.lt_irrefl _)
    · rintro ⟨table, around, text, hn, -⟩
      exact absurd (Document.lt_fresh (h.isAllocated p (Array.mem_of_getElem? hn))) (hnew ▸ Nat.lt_irrefl _)
  · exact h.loose p name hp hname

theorem Tabled.apply (h : s.Tabled edits) (hedits : AptThroughout edits) (hedit : edit.Apt (labels edits)) :
    (s.apply edit).Tabled (edits ++ [edit]) where
  toLabelled := labels_concat edits edit ▸ h.toLabelled.apply edit
  loose p name hp hname := by
    cases hlabel : edit.label? with
    | none =>
      obtain ⟨hnodes, hsame⟩ := apply_of_unlabelled s hlabel
      rw [hsame] at hp
      rw [h.hasLooseText_apply hedit hlabel hp hname, takesMisplaced_concat, TakesMisplaced, hnodes,
        h.loose p name hp hname]
      rfl
    | some label =>
      have hnot (table around : Handle) (text : String) :
          .insert (.misplaced table around) (.text text) ≠ edit := by
        rintro rfl
        cases hlabel
      rw [takesMisplaced_concat]
      simp only [hnot, false_and, and_false, exists_false, or_false]
      cases edit with
      | element tag ns attributes => exact (h.add _ ns hp hname).trans (takesMisplaced_add h.size hedits _ ns).symm
      | comment text => exact (h.add _ .html hp hname).trans (takesMisplaced_add h.size hedits _ .html).symm
      | insert | detach | moveChildren => cases hlabel

theorem Labelled.eq_of_takesMisplaced (h : s.Labelled (labels edits)) (hedits : AptThroughout edits)
    {name : String} (hp : s.document.label? p = some (.html, name)) (htakes : s.TakesMisplaced edits p) :
    name = "table" := by
  obtain ⟨table, around, text, hn, hmem, -⟩ := htakes
  have hlabel := (hp.symm.trans (h.label table p hn)).trans (label_of_misplaced hedits hmem)
  exact congrArg Prod.snd (Option.some.inj hlabel)

theorem tabled_run (h : AptThroughout edits) : (run {} edits).Tabled edits := by
  induction edits using List.reverseRecOn with
  | nil =>
    refine { toSound := sound_startIn Document.wellFormed_empty, size := rfl, label := nofun, loose := fun p name hp => ?_ }
    replace hp := (Document.label?_create {} .fragment .html p).symm.trans hp
    split at hp
    · cases hp
    · cases hp
  | append_singleton edits edit ih =>
    have hbefore : AptThroughout edits := fun before x hx => h before x (hx.trans (List.prefix_append ..))
    have hrun : run {} (edits ++ [edit]) = (run {} edits).apply edit := List.foldl_concat ..
    rw [hrun]
    exact (ih hbefore).apply hbefore (h edits edit List.prefix_rfl)

end Markup.Site

/-! Forests. -/

namespace Document
variable {c : NodeId} {ns : List NodeId}

theorem Gathers.views (hd : d.Gathers c ns d') (h : d.WellFormed) (hc : d.isFragment c)
    (htop : d.parent? c = none) (hm : d'.label? m = some label) :
    d'.data? m = d.data? m ∧ d'.children m = d.children m ∧ ∀ k ∈ d.children m, d'.data? k = d.data? k := by
  have hchild {k : NodeId} (hk : k ∈ d.children m) : d.isWithin k c ↔ d.LiesIn m c :=
    isWithin_iff_of_parent? (h.parent?_eq_some_iff.2 hk)
  by_cases hmc : d.LiesIn m c
  · rcases hmc with rfl | hmc
    · have hcontainer := hd.data?_container
      split at hcontainer
      · obtain ⟨data, hdata⟩ := Document.isAllocated_iff.1 (isAllocated_of_label? hm)
        cases hcontainer.symm.trans hdata
      · rw [label?_congr hcontainer] at hm
        exact absurd hc (not_isFragment_of_label? hm)
    · obtain ⟨n, hn, hlies⟩ := (hd.isAllocated_iff m hmc).1 (isAllocated_of_label? hm)
      refine ⟨hd.data? n hn m hlies, hd.children n hn m hlies, fun k hk => hd.data? n hn k (.inr ?_)⟩
      exact (isWithin_iff_of_parent? (h.parent?_eq_some_iff.2 hk)).2 hlies
  · obtain ⟨hdata, -, hchildren⟩ := node?_eq_iff_views.1 (hd.node? m hmc)
    refine ⟨hdata, hchildren, fun k hk => (node?_eq_iff_views.1 (hd.node? k ?_)).1⟩
    rintro (rfl | hkc)
    · cases htop.symm.trans (h.parent?_eq_some_iff.2 hk)
    · exact hmc ((hchild hk).1 hkc)

theorem Gathers.hasLooseText_iff (hd : d.Gathers c ns d') (h : d.WellFormed) (hc : d.isFragment c)
    (htop : d.parent? c = none) (hm : d'.label? m = some label) : d'.HasLooseText m ↔ d.HasLooseText m := by
  obtain ⟨-, hchildren, hdata⟩ := hd.views h hc htop hm
  rw [HasLooseText, HasLooseText, hchildren]
  exact exists_congr fun k => and_congr_right fun hk => by rw [text?_congr (hdata k hk)]

theorem hasLooseText_graft (d other : Document) (n : NodeId) :
    (d.graft other).HasLooseText (n + d.fresh) ↔ other.HasLooseText n := by
  rw [HasLooseText, children_graft, HasLooseText]
  simp only [List.mem_map, exists_exists_and_eq_and, text?_graft]

end Document

/-- Construction hands over text that is more than layout, for a node, as misplaced in that table. -/
def Markup.Fosters (markup : String) (n : NodeId) : Prop :=
  (Site.run {} (Construction.edits markup)).TakesMisplaced (Construction.edits markup) n

/-- In the rows of an HTML table and in the groups of rows there is no text but layout, whatever the markup.
A `table` itself has other text exactly when some was handed over as misplaced in it, for what is misplaced
in a table is not put before it. -/
theorem Document.hasLooseText_parse_iff (d : Document) (markup : String) (n : NodeId) (e : Element)
    (hn : (d.parse markup).1.data? (d.fresh + n) = some (.element e, .html))
    (he : e.tag ∈ Markup.Construction.tableParts) :
    (d.parse markup).1.HasLooseText (d.fresh + n) ↔ e.tag = "table" ∧ Markup.Fosters markup n := by
  have hedits := Markup.Construction.aptThroughout_edits markup
  have hsite := Markup.Site.apart_run wellFormed_empty fragmentsOnTop_empty (Markup.Construction.edits markup)
  have hcontainer := Markup.Site.container_run {} (Markup.Construction.edits markup)
  have htabled := Markup.Site.tabled_run hedits
  have hfragment := hcontainer ▸ hsite.isFragment
  have htop := hsite.fragmentsOnTop 0 hfragment
  rw [Nat.add_comm, parse_eq] at hn ⊢
  rw [data?_graft] at hn
  have hlabel : (Markup.forest markup).1.label? n = some (.html, e.tag) := by
    rw [label?_eq_data?, hn]
    rfl
  have hsame := ((Markup.gathers_forest markup).views hsite.wellFormed hfragment htop hlabel).1
  have hlabelled := (label?_congr hsame).symm.trans hlabel
  rw [hasLooseText_graft, (Markup.gathers_forest markup).hasLooseText_iff hsite.wellFormed
    hfragment htop hlabel, htabled.loose n e.tag hlabelled he]
  exact ⟨fun htakes => ⟨htabled.eq_of_takesMisplaced hedits hlabelled htakes, htakes⟩, And.right⟩

/-- Misplaced text before and inside a row. -/
theorem Document.hasLooseText_parse_misplaced :
    let read := ({} : Document).parse "<table>x<tr>y"
    read.2 = [4] ∧ read.1.data? 4 = some (.element { tag := "table" }, .html) ∧ read.1.HasLooseText 4 ∧
      Markup.Fosters "<table>x<tr>y" 4 ∧
      read.1.data? 7 = some (.element { tag := "tr" }, .html) ∧ ¬ read.1.HasLooseText 7 := by
  intro read
  have hread : ({} : Document).parse "<table>x<tr>y" = (⟨#[
      some { kind := .fragment, children := [4] }, none, none, none,
      some { kind := .element { tag := "table" }, parent := some 0, children := [5, 6, 8] },
      some { kind := .text "x", parent := some 4 },
      some { kind := .element { tag := "tbody" }, parent := some 4, children := [7] },
      some { kind := .element { tag := "tr" }, parent := some 6 },
      some { kind := .text "y", parent := some 4 }], []⟩, [4]) := by cbv
  have htable : read.1.data? 4 = some (.element { tag := "table" }, .html) := by
    simp only [read, hread]
    rfl
  have hrow : read.1.data? 7 = some (.element { tag := "tr" }, .html) := by
    simp only [read, hread]
    rfl
  have hloose : read.1.HasLooseText 4 := by
    simp only [read, hread]
    exact ⟨5, by decide, "x", rfl, by decide⟩
  have hiff (n : NodeId) (e : Element) (hn : read.1.data? n = some (.element e, .html))
      (he : e.tag ∈ Markup.Construction.tableParts) :
      read.1.HasLooseText n ↔ e.tag = "table" ∧ Markup.Fosters "<table>x<tr>y" n := by
    have h := hasLooseText_parse_iff {} "<table>x<tr>y" n e
    rw [show ({} : Document).fresh + n = n from Nat.zero_add n] at h
    exact h hn he
  have hfosters := ((hiff 4 { tag := "table" } htable (by decide)).1 hloose).2
  have hbare := (hiff 7 { tag := "tr" } hrow (by decide)).not.2 (by simp)
  exact ⟨congrArg Prod.snd hread, htable, hloose, hfosters, hrow, hbare⟩

/-- The text is not before the table. -/
theorem Document.text_left_in_table :
    let read := ({} : Document).parse "<table>x"
    read.2 = [4] ∧ read.1.data? 4 = some (.element { tag := "table" }, .html) ∧ read.1.children 4 = [5] ∧
      read.1.text? 5 = some "x" ∧ ¬ Text.isAllBlank "x" := by
  have hread : ({} : Document).parse "<table>x" = (⟨#[
      some { kind := .fragment, children := [4] }, none, none, none,
      some { kind := .element { tag := "table" }, parent := some 0, children := [5] },
      some { kind := .text "x", parent := some 4 }], []⟩, [4]) := by cbv
  rw [hread]
  exact ⟨rfl, rfl, rfl, rfl, by decide⟩

end DomQuery
