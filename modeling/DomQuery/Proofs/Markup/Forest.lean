import DomQuery.Proofs.Document.Planting
import DomQuery.Proofs.Markup.InPlace

/-!
Nodes from markup. Whatever edits a markup text comes down to, they build a well-formed document; the
forest that is lifted out of it stands below one container, and nothing else in the document changes.
-/
namespace DomQuery
variable {d other : Document} {spot : Spot} {n m p c x : NodeId} {ns xs : List NodeId}

namespace Document

/-! Lengthening texts. -/

theorem WellFormed.putText (h : d.WellFormed) (hspot : d.Has spot) (text : String) :
    (d.putText spot text).WellFormed ∧ d.Extends (d.putText spot text) := by
  have hadds := h.adds_create (.text text) .html
  have hmore := hadds.grows.toExtends
  obtain ⟨-, ht⟩ := hadds.of_mem _ List.mem_cons_self
  rw [Document.putText]
  exact ⟨hadds.wellFormed.tryPut ht (hmore.has hspot), hmore.trans (extends_tryPut ..)⟩

theorem WellFormed.appendText (h : d.WellFormed) (hp : d.isAllocated p) (text : String) :
    (d.appendText p text).WellFormed ∧ ∀ m, (d.isAllocated m → (d.appendText p text).isAllocated m) ∧
      (d.isFragment m → (d.appendText p text).isFragment m) := by
  have hnew : (d.putText (.lastIn p) text).WellFormed ∧
      ∀ m, (d.isAllocated m → (d.putText (.lastIn p) text).isAllocated m) ∧
        (d.isFragment m → (d.putText (.lastIn p) text).isFragment m) := by
    have hspot : d.Has (.lastIn p) := hp
    obtain ⟨hd, hmore⟩ := h.putText hspot text
    refine ⟨hd, fun m => ⟨hmore.isAllocated, fun hm => ?_⟩⟩
    rwa [isFragment_congr (hmore.keeps.data? (isAllocated_of_isFragment hm))]
  rw [Document.appendText]
  split
  · exact hnew
  split
  · exact hnew
  · refine ⟨h.modify (fun node => by split <;> rfl) (fun node => by split <;> rfl) ?_,
      fun m => ⟨fun hm => by rwa [isAllocated_modify], fun hm => ?_⟩⟩
    · intro node hnode hleaf
      refine h.children_of_isLeaf ?_
      rw [isLeaf, kind?, hnode]
      revert hleaf
      cases hkind : node.kind <;> simp [hkind, Kind.isLeaf]
    · rw [isFragment, kind?, node?_modify]
      split
      · rename_i last _ _ heq
        rw [isFragment, kind?, heq] at hm
        revert hm
        cases d.node? last with
        | none => exact id
        | some node => cases hkind : node.kind <;> simp [hkind, Kind.isFragment]
      · exact hm

end Document

/-! Building. -/

namespace Markup

/-- The handles stand for nodes of a well-formed document, and the container is a fragment. -/
structure Site.Sound (s : Site) : Prop where
  wellFormed : s.document.WellFormed
  isAllocated : ∀ n ∈ s.nodes, s.document.isAllocated n
  isFragment : s.document.isFragment s.container

namespace Site
variable {s : Site}

theorem Sound.of_extends (h : s.Sound) (hd : d.WellFormed) (hmore : s.document.Extends d) :
    Sound { s with document := d } where
  wellFormed := hd
  isAllocated n hn := hmore.isAllocated (h.isAllocated n hn)
  isFragment := by
    rw [Document.isFragment_congr (hmore.keeps.data? (Document.isAllocated_of_isFragment h.isFragment))]
    exact h.isFragment

theorem Sound.add (h : s.Sound) (kind : Kind) (space : Namespace) : (s.add kind space).Sound := by
  have hadds := h.wellFormed.adds_create kind space
  obtain ⟨-, hn⟩ := hadds.of_mem _ List.mem_cons_self
  have hold := h.of_extends hadds.wellFormed hadds.grows.toExtends
  refine ⟨hold.wellFormed, fun n hmem => ?_, hold.isFragment⟩
  cases Array.mem_push.1 hmem with
  | inl hmem => exact hold.isAllocated n hmem
  | inr heq => exact heq ▸ hn

theorem Sound.isAllocated_node (h : s.Sound) {handle : Handle} (hn : s.nodes[handle]? = some n) :
    s.document.isAllocated n := h.isAllocated n (Array.mem_of_getElem? hn)

theorem Sound.isAllocated_parent (h : s.Sound) {place : Option Handle} {p : NodeId}
    (hp : s.parent? place = some p) : s.document.isAllocated p := by
  cases place with
  | none => exact Option.some.inj hp ▸ Document.isAllocated_of_isFragment h.isFragment
  | some handle => exact h.isAllocated_node hp

theorem Sound.append (h : s.Sound) (parent : Option Handle) (addition : Addition) :
    (s.append parent addition).Sound := by
  cases addition with
  | node handle =>
    rw [Site.append]
    split
    · rename_i p n hp hn
      exact h.of_extends (h.wellFormed.tryPut (h.isAllocated_node hn) (h.isAllocated_parent hp))
        (Document.extends_tryPut ..)
    · exact h
  | text text =>
    rw [Site.append]
    split
    · rename_i p hp
      obtain ⟨hd, hkept⟩ := h.wellFormed.appendText (h.isAllocated_parent hp) text
      exact ⟨hd, fun n hn => (hkept n).1 (h.isAllocated n hn), (hkept s.container).2 h.isFragment⟩
    · exact h

theorem Sound.appendBefore (h : s.Sound) (sibling : Handle) (addition : Addition) :
    (s.appendBefore sibling addition).Sound := by
  cases addition with
  | node handle =>
    rw [Site.appendBefore]
    split
    · rename_i b n hb hn
      exact h.of_extends (h.wellFormed.tryPut (h.isAllocated_node hn) (h.isAllocated_node hb))
        (Document.extends_tryPut ..)
    · exact h
  | text text =>
    rw [Site.appendBefore]
    split
    · rename_i b hb
      have hspot : s.document.Has (.before b) := h.isAllocated_node hb
      obtain ⟨hd, hmore⟩ := h.wellFormed.putText hspot text
      exact h.of_extends hd hmore
    · exact h

theorem Sound.apply (h : s.Sound) (edit : Edit) : (s.apply edit).Sound := by
  cases edit with
  | element tag space attributes => exact h.add _ space
  | comment text => exact h.add _ _
  | insert point addition =>
    cases point with
    | inside parent => exact h.append parent addition
    | before sibling => exact h.appendBefore sibling addition
    | misplaced table around => exact h.append (some table) addition
  | detach node =>
    rw [Site.apply]
    split
    · rename_i n hn
      exact h.of_extends (h.wellFormed.detach n) (Document.extends_detach ..)
    · exact h
  | moveChildren source target =>
    rw [Site.apply]
    split
    · rename_i a b ha hb
      exact h.of_extends (h.wellFormed.tryPutAll (fun n hn => h.wellFormed.isAllocated_child hn)
        (h.isAllocated_node hb)) (Document.extends_tryPutAll ..)
    · exact h

theorem sound_startIn (h : d.WellFormed) : (startIn d).Sound where
  wellFormed := (h.adds_create .fragment .html).wellFormed
  isAllocated n hn := (Array.not_mem_empty n hn).elim
  isFragment := by
    rw [Document.isFragment, Document.kind?]
    exact congrArg (Option.any Kind.isFragment ∘ Option.map Node.kind)
      ((Document.node?_add d { kind := .fragment } d.fresh).trans (if_pos rfl))

theorem container_run (d : Document) (edits : List Edit) : (run d edits).container = d.fresh := by
  have happend (s : Site) (parent : Option Handle) (addition : Addition) :
      (s.append parent addition).container = s.container := by
    cases addition with
    | node handle => rw [append]; split <;> rfl
    | text text => rw [append]; split <;> rfl
  have hbefore (s : Site) (sibling : Handle) (addition : Addition) :
      (s.appendBefore sibling addition).container = s.container := by
    cases addition with
    | node handle => rw [appendBefore]; split <;> rfl
    | text text => rw [appendBefore]; split <;> rfl
  have hstart : (startIn d).container = d.fresh := rfl
  refine List.foldlRecOn edits apply (motive := fun s => s.container = d.fresh) hstart fun s hs edit _ => ?_
  rw [← hs]
  cases edit with
  | element | comment => rfl
  | insert point addition =>
    cases point with
    | inside parent => exact happend s parent addition
    | before sibling => exact hbefore s sibling addition
    | misplaced table around => exact happend s (some table) addition
  | detach => rw [apply]; split <;> rfl
  | moveChildren => rw [apply]; split <;> rfl

theorem sound_run (h : d.WellFormed) (edits : List Edit) : (run d edits).Sound :=
  List.foldlRecOn edits apply (sound_startIn h) fun _ hs edit _ => hs.apply edit

end Site
end Markup

/-! Lifting. -/

namespace Document

theorem WellFormed.isWithin_of_mem_pageContent (h : d.WellFormed) (hn : n ∈ d.pageContent c) :
    d.isWithin n c := by
  obtain ⟨s, hs, hn⟩ := List.mem_flatMap.1 hn
  have hsc := h.isWithin_of_mem_children hs
  split at hn
  · split at hn
    · obtain ⟨section_, hsection, hn⟩ := List.mem_flatMap.1 hn
      have hchild := h.isWithin_of_mem_children (List.mem_of_mem_filter hsection)
      exact isWithin_trans (h.isWithin_of_mem_children hn) (isWithin_trans hchild hsc)
    · cases hn
  · rwa [List.mem_singleton.1 hn]
  · cases hn

theorem WellFormed.nodup_flatMap_children (h : d.WellFormed) {part : NodeId → List NodeId}
    (hns : ns.Sublist (d.children p)) (hnodup : ∀ n ∈ ns, (part n).Nodup)
    (hlies : ∀ n ∈ ns, ∀ m ∈ part n, d.LiesIn m n) : (ns.flatMap part).Nodup := by
  refine List.nodup_flatMap.2 ⟨hnodup, ?_⟩
  refine ((h.nodup_children p).sublist hns).pairwise_of_forall_ne fun x hx y hy hxy m hmx hmy => ?_
  exact hxy (h.eq_of_liesIn_children (hns.subset hx) (hns.subset hy) (hlies x hx m hmx) (hlies y hy m hmy))

theorem WellFormed.nodup_pageContent (h : d.WellFormed) (c : NodeId) : (d.pageContent c).Nodup := by
  have hchild {n m : NodeId} (hm : m ∈ d.children n) : d.LiesIn m n :=
    .inr (h.isWithin_of_mem_children hm)
  refine h.nodup_flatMap_children (List.Sublist.refl _) (fun n _ => ?_) fun n _ m hm => ?_
  · split
    · split
      · exact h.nodup_flatMap_children List.filter_sublist (fun s _ => h.nodup_children s)
          fun s _ m => hchild
      · exact List.nodup_nil
    · exact List.nodup_singleton n
    · exact List.nodup_nil
  · split at hm
    · split at hm
      · obtain ⟨s, hs, hm⟩ := List.mem_flatMap.1 hm
        exact (hchild hm).trans (hchild (List.mem_of_mem_filter hs))
      · cases hm
    · exact .inl (List.mem_singleton.1 hm)
    · cases hm

/-- The forest of a page, apart from the rest: its nodes are what stands in the container, which is
there as long as there are any. -/
structure Lifted (d : Document) (c : NodeId) (forest : List NodeId) : Prop where
  wellFormed : d.WellFormed
  nodup : forest.Nodup
  parent?_eq_some_iff : ∀ n, d.parent? n = some c ↔ n ∈ forest
  isAllocated_iff : d.isAllocated c ↔ forest ≠ []

theorem liftForest_eq (d : Document) (c : NodeId) : d.liftForest c =
    ((d.regather c ((d.pageContent c).filter (!d.isBlankText ·))).discardIfDrained c,
      (d.pageContent c).filter (!d.isBlankText ·)) := rfl

theorem WellFormed.liftForest (h : d.WellFormed) (hc : d.isFragment c) :
    (d.liftForest c).1.Lifted c (d.liftForest c).2 := by
  have hnodup := (h.nodup_pageContent c).filter (!d.isBlankText ·)
  have hre := h.regathered hc (fun n hn => h.isWithin_of_mem_pageContent (List.mem_of_mem_filter hn)) hnodup
  have hfragment := hre.isFragment h hc
  rw [liftForest_eq]
  generalize (d.pageContent c).filter (!d.isBlankText ·) = forest at hnodup hre hfragment
  generalize d.regather c forest = full at hre hfragment
  have hfull := hre.wellFormed
  have hdrained := hfull.discardIfDrained c
  refine ⟨hdrained, hnodup, fun n => ?_, ?_⟩
  · rw [hdrained.parent?_eq_some_iff, hfull.children_discardIfDrained_self hfragment, hre.children_container]
  · rw [hfull.isAllocated_discardIfDrained_self hfragment, hre.children_container]

/-- Lifting a forest and then grafting what is left is grafting the page and then lifting. -/
theorem WellFormed.liftForest_graft (h : other.WellFormed) (hc : other.isFragment c) (d : Document) :
    (d.graft other).liftForest (c + d.fresh) =
      (d.graft (other.liftForest c).1, (other.liftForest c).2.map (· + d.fresh)) := by
  have hpos : 0 < other.fresh := Nat.zero_lt_of_lt (lt_fresh (isAllocated_of_isFragment hc))
  have hnodup := (h.nodup_pageContent c).filter (!other.isBlankText ·)
  have hre := h.regathered hc (fun n hn => h.isWithin_of_mem_pageContent (List.mem_of_mem_filter hn)) hnodup
  have hforest : ((d.graft other).pageContent (c + d.fresh)).filter (!(d.graft other).isBlankText ·) =
      ((other.pageContent c).filter (!other.isBlankText ·)).map (· + d.fresh) := by
    rw [pageContent_graft, List.filter_map]
    refine congrArg _ (List.filter_congr fun n _ => ?_)
    rw [Function.comp_apply, isBlankText, text?_graft, ← isBlankText]
  rw [liftForest_eq, liftForest_eq, hforest, h.regather_graft hpos,
    hre.wellFormed.discardIfDrained_graft (hre.fresh.symm ▸ hpos)]

end Document

/-- The forest that a markup text describes, in a document that holds nothing else. -/
def Markup.forest (markup : String) : Document × List NodeId := ({} : Document).parse markup

namespace Document

theorem WellFormed.lifted_parse (h : d.WellFormed) (markup : String) :
    (d.parse markup).1.Lifted d.fresh (d.parse markup).2 := by
  have hsite := Markup.Site.sound_run h (Markup.Construction.edits markup)
  rw [← Markup.Site.container_run d (Markup.Construction.edits markup)]
  exact hsite.wellFormed.liftForest hsite.isFragment

theorem wellFormed_empty : ({} : Document).WellFormed := by decide

theorem lifted_forest (markup : String) : (Markup.forest markup).1.Lifted 0 (Markup.forest markup).2 :=
  wellFormed_empty.lifted_parse markup

/-- What is read into a document is what is read into an empty one, under higher numbers. -/
theorem parse_eq (d : Document) (markup : String) : d.parse markup =
    (d.graft (Markup.forest markup).1, (Markup.forest markup).2.map (· + d.fresh)) := by
  have hsite := Markup.Site.sound_run wellFormed_empty (Markup.Construction.edits markup)
  rw [parse, Markup.Site.run_eq]
  exact hsite.wellFormed.liftForest_graft hsite.isFragment d

/-- Reading markup adds nodes. Those at the top stand in the first new one. -/
theorem WellFormed.parse (h : d.WellFormed) (markup : String) :
    d.Adds (d.parse markup).1 (d.parse markup).2 ∧
      ∀ n ∈ (d.parse markup).2, (d.parse markup).1.parent? n = some d.fresh := by
  have hlifted := h.lifted_parse markup
  have hgrows : d.Grows (d.parse markup).1 := by
    rw [parse_eq]
    exact h.grows_graft _
  have hparent (n : NodeId) := (hlifted.parent?_eq_some_iff n).2
  refine ⟨⟨hgrows, hlifted.wellFormed, fun n hn => ?_⟩, hparent⟩
  exact ⟨(hgrows.apart n d.fresh (hparent n hn)).2 (Nat.le_refl _), isAllocated_of_parent? (hparent n hn)⟩

end Document
end DomQuery
