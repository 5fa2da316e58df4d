import DomQuery.Proofs.Document.OrderedForest
import DomQuery.Proofs.Markup.Container

/-!
Lifting a forest out of a page. What stands in the sections of the page and the comments around it come to
stand directly in the container, in document order and with all that they hold; everything else below the
container is freed, and nothing outside of it changes.
-/
namespace DomQuery
namespace Document
variable {d d' : Document} {n m p c k : NodeId} {ns xs : List NodeId}

/-- What a page holds. Blank text directly in a section is no content. -/
structure IsContent (d : Document) (c n : NodeId) : Prop where
  place : (∃ page part, d.parent? page = some c ∧ d.tag? page = some "html" ∧
      d.parent? part = some page ∧ d.isElement part ∧ d.parent? n = some part) ∨
    d.parent? n = some c ∧ ∃ text, d.kind? n = some (.comment text)
  not_blank : ∀ text, d.kind? n = some (.text text) → ¬ Text.isAllBlank text

/-- The listed nodes, which are somewhere below `c`, are all that is left there: the children of `c`, in
this order, and each with what it holds. If there are none, then `c` goes too. -/
structure Gathers (d : Document) (c : NodeId) (ns : List NodeId) (d' : Document) : Prop where
  wellFormed : d'.WellFormed
  children_eq : d'.children c = ns
  data?_container : d'.data? c = if ns = [] then none else d.data? c
  parent?_container : d'.parent? c = none
  data? : ∀ n ∈ ns, ∀ m, d.LiesIn m n → d'.data? m = d.data? m
  children : ∀ n ∈ ns, ∀ m, d.LiesIn m n → d'.children m = d.children m
  isAllocated_iff : ∀ m, d.isWithin m c → (d'.isAllocated m ↔ ∃ n ∈ ns, d.LiesIn m n)
  node? : ∀ m, ¬ d.LiesIn m c → d'.node? m = d.node? m
  roots : d'.roots = d.roots
  fresh : d'.fresh = d.fresh

theorem WellFormed.gathers (h : d.WellFormed) (hc : d.isFragment c) (htop : d.parent? c = none)
    (hns : ∀ n ∈ ns, d.isWithin n c) (hapart : ∀ n ∈ ns, ∀ m ∈ ns, ¬ d.isWithin m n)
    (hnodup : ns.Nodup) : d.Gathers c ns ((d.regather c ns).discardIfDrained c) := by
  have hre := h.regathered hc hns hnodup
  generalize d.regather c ns = full at hre
  have hfull := hre.wellFormed
  have hfragment := hre.isFragment h hc
  have htop' := (hre.parent?_container h hns).trans htop
  have hself := hfull.node?_discardIfDrained_self hfragment
  rw [hre.children_container] at hself
  -- whether or not the container goes, nothing else changes
  have hviews (m : NodeId) (hm : m ≠ c) :=
    node?_eq_iff_views.1 (hfull.node?_discardIfDrained hfragment htop' hm)
  have hkept {n m : NodeId} (hn : n ∈ ns) (hm : d.LiesIn m n) : ¬ d.Leftover c ns m ∧ m ≠ c :=
    ⟨fun hleft => hleft.2 n hn hm, fun heq => h.not_liesIn_of_below hns hn (heq ▸ hm)⟩
  refine
    { wellFormed := hfull.discardIfDrained c,
      children_eq := (hfull.children_discardIfDrained_self hfragment).trans hre.children_container,
      data?_container := ?_, parent?_container := ?_,
      data? := fun n hn m hm => ?_, children := fun n hn m hm => ?_, isAllocated_iff := fun m hm => ?_,
      node? := fun m hm => ?_,
      roots := (roots_discardIfDrained full c).trans hre.roots,
      fresh := (fresh_discardIfDrained full c).trans hre.fresh }
  · rw [Document.data?, hself]
    split
    · rfl
    · exact hre.data?_container h
  · rw [Document.parent?, hself]
    split
    · rfl
    · exact htop'
  · obtain ⟨hleft, hne⟩ := hkept hn hm
    rw [(hviews m hne).1, hre.data? m hleft]
  · obtain ⟨hleft, hne⟩ := hkept hn hm
    rw [(hviews m hne).2.2]
    refine hre.children m hleft hne fun k hk hmem => hapart n hn k hmem ?_
    exact (isWithin_iff_of_parent? (h.parent?_eq_some_iff.2 hk)).2 (hm.imp id id)
  · have hne : m ≠ c := fun heq => h.not_isWithin_self c (heq ▸ hm)
    rw [isAllocated_congr (hviews m hne).1]
    constructor
    · intro hthere
      by_contra hnone
      exact hre.freed m ⟨hm, fun n hn hlies => hnone ⟨n, hn, hlies⟩⟩ hthere
    · rintro ⟨n, hn, hlies⟩
      rw [isAllocated_congr (hre.data? m (hkept hn hlies).1)]
      obtain ⟨p, hp⟩ := exists_parent?_of_isWithin hm
      exact isAllocated_of_parent? hp
  · rw [LiesIn, not_or] at hm
    have hleft : ¬ d.Leftover c ns m := fun hleft => hm.2 hleft.1
    have hmem : m ∉ ns := fun hmem => hm.2 (hns m hmem)
    rw [hfull.node?_discardIfDrained hfragment htop' hm.1]
    refine node?_eq_iff_views.2
      ⟨hre.data? m hleft, (hre.parent? m hleft).trans (if_neg hmem), hre.children m hleft hm.1 ?_⟩
    intro k hk hmem
    exact ((isWithin_iff_of_parent? (h.parent?_eq_some_iff.2 hk)).1 (hns k hmem)).elim hm.1 hm.2

/-! The content of a page. -/

theorem tag?_eq_some_iff {tag : String} :
    d.tag? n = some tag ↔ ∃ e, d.kind? n = some (.element e) ∧ e.tag = tag := by
  rw [tag?, element?]
  cases hkind : d.kind? n with
  | none => simp
  | some kind => cases kind <;> simp [Kind.element?]

theorem not_isBlankText_iff :
    !d.isBlankText n ↔ ∀ text, d.kind? n = some (.text text) → ¬ Text.isAllBlank text := by
  rw [isBlankText, text?]
  cases hkind : d.kind? n with
  | none => simp
  | some kind => cases kind <;> simp [Kind.text?]

theorem pairwise_flatMap_children {part : NodeId → List NodeId} (hns : ns.Sublist (d.children p))
    (hpart : ∀ n ∈ ns, (part n).Pairwise d.Precedes) (hlies : ∀ n ∈ ns, ∀ m ∈ part n, d.LiesIn m n) :
    (ns.flatMap part).Pairwise d.Precedes := by
  refine List.pairwise_flatMap.2 ⟨hpart, ?_⟩
  refine List.pairwise_iff_forall_sublist.2 fun {x y} hxy a ha b hb => ?_
  have hx : x ∈ ns := hxy.subset (by simp)
  have hy : y ∈ ns := hxy.subset (by simp)
  exact .beside (hxy.trans hns) (hlies x hx a ha) (hlies y hy b hb)

namespace WellFormed
variable (h : d.WellFormed)
include h

theorem mem_content_iff :
    n ∈ (d.pageContent c).filter (!d.isBlankText ·) ↔ d.IsContent c n := by
  rw [List.mem_filter, not_isBlankText_iff, pageContent, List.mem_flatMap]
  constructor
  · rintro ⟨⟨page, hpage, hn⟩, hblank⟩
    refine ⟨?_, hblank⟩
    split at hn
    · rename_i e hkind
      split at hn
      · rename_i htag
        obtain ⟨part, hpart, hn⟩ := List.mem_flatMap.1 hn
        obtain ⟨hpart, helement⟩ := List.mem_filter.1 hpart
        exact .inl ⟨page, part, h.parent?_eq_some_iff.2 hpage, tag?_eq_some_iff.2 ⟨e, hkind, htag⟩,
          h.parent?_eq_some_iff.2 hpart, helement, h.parent?_eq_some_iff.2 hn⟩
      · cases hn
    · rename_i text hkind
      obtain rfl := List.mem_singleton.1 hn
      exact .inr ⟨h.parent?_eq_some_iff.2 hpage, text, hkind⟩
    · cases hn
  · rintro ⟨⟨page, part, hpage, htag, hpart, helement, hn⟩ | ⟨hn, text, hkind⟩, hblank⟩
    · obtain ⟨e, hkind, htag⟩ := tag?_eq_some_iff.1 htag
      refine ⟨⟨page, h.parent?_eq_some_iff.1 hpage, ?_⟩, hblank⟩
      simp only [hkind, htag, if_true]
      exact List.mem_flatMap.2 ⟨part, List.mem_filter.2 ⟨h.parent?_eq_some_iff.1 hpart, helement⟩,
        h.parent?_eq_some_iff.1 hn⟩
    · refine ⟨⟨n, h.parent?_eq_some_iff.1 hn, ?_⟩, hblank⟩
      simp only [hkind, List.mem_singleton]

theorem pairwise_precedes_pageContent (c : NodeId) : (d.pageContent c).Pairwise d.Precedes := by
  have hchild {n m : NodeId} (hm : m ∈ d.children n) : d.LiesIn m n :=
    .inr (h.isWithin_of_mem_children hm)
  have hchildren (n : NodeId) : (d.children n).Pairwise d.Precedes :=
    (pairwise_sublist _).imp fun hxy => .beside hxy (.inl rfl) (.inl rfl)
  refine pairwise_flatMap_children (List.Sublist.refl _) (fun n _ => ?_) fun n _ m hm => ?_
  · split
    · split
      · exact pairwise_flatMap_children List.filter_sublist (fun s _ => hchildren s)
          fun s _ m => hchild
      · exact List.Pairwise.nil
    · exact List.pairwise_singleton _ n
    · exact List.Pairwise.nil
  · split at hm
    · split at hm
      · obtain ⟨s, hs, hm⟩ := List.mem_flatMap.1 hm
        exact (hchild hm).trans (hchild (List.mem_of_mem_filter hs))
      · cases hm
    · exact .inl (List.mem_singleton.1 hm)
    · cases hm

theorem not_isWithin_content (hn : d.IsContent c n) (hm : d.IsContent c m) : ¬ d.isWithin m n := by
  intro hmn
  have hdepth {m : NodeId} (hm : d.IsContent c m) :
      (d.ancestors m).length ≤ (d.ancestors c).length + 3 := by
    rcases hm.place with ⟨page, part, hpage, -, hpart, -, hm⟩ | ⟨hm, -⟩
    · rw [h.ancestors_of_parent? hm, h.ancestors_of_parent? hpart, h.ancestors_of_parent? hpage]
      exact Nat.le_refl _
    · rw [h.ancestors_of_parent? hm]
      exact Nat.succ_le_succ (Nat.le_add_right _ 2)
  have hlt := h.length_ancestors_lt_of_isWithin hmn
  rcases hn.place with ⟨page, part, hpage, -, hpart, -, hn⟩ | ⟨-, text, hkind⟩
  · rw [h.ancestors_of_parent? hn, h.ancestors_of_parent? hpart, h.ancestors_of_parent? hpage] at hlt
    exact Nat.not_lt_of_le (hdepth hm) hlt
  · obtain ⟨k, hk, -⟩ := isWithin_iff_exists_liesIn.1 hmn
    have hk := h.parent?_eq_some_iff.1 hk
    rw [h.children_of_isLeaf (by rw [isLeaf, hkind]; rfl)] at hk
    cases hk

/-- The forest of a page and nothing else of it is left. -/
theorem gathers_liftForest (hc : d.isFragment c) (htop : d.parent? c = none) :
    d.Gathers c (d.liftForest c).2 (d.liftForest c).1 := by
  rw [liftForest_eq]
  refine h.gathers hc htop (fun n hn => ?_) (fun n hn m hm => ?_) ((h.nodup_pageContent c).filter _)
  · exact h.isWithin_of_mem_pageContent (List.mem_of_mem_filter hn)
  · exact h.not_isWithin_content (h.mem_content_iff.1 hn) (h.mem_content_iff.1 hm)

/-- Lifting gives the content of the page in document order, and leaves exactly that in the container. -/
theorem liftForest_keeps_content (hc : d.isFragment c) (htop : d.parent? c = none) :
    (∀ n, n ∈ (d.liftForest c).2 ↔ d.IsContent c n) ∧ (d.liftForest c).2.Pairwise d.Precedes ∧
      d.Gathers c (d.liftForest c).2 (d.liftForest c).1 := by
  refine ⟨fun n => ?_, ?_, h.gathers_liftForest hc htop⟩
  · rw [liftForest_eq]
    exact h.mem_content_iff
  · rw [liftForest_eq]
    exact (h.pairwise_precedes_pageContent c).filter _

end WellFormed

/-- A page with a head, a body and layout between and inside them, a comment before it, and another tree
that is a root. -/
theorem liftForest_keeps_content_page :
    let d : Document := {
      slots := #[
        some { kind := .fragment, children := [1, 2] },
        some { kind := .comment "a", parent := some 0 },
        some { kind := .element { tag := "html" }, parent := some 0, children := [3, 5, 6] },
        some { kind := .element { tag := "head" }, parent := some 2, children := [4] },
        some { kind := .element { tag := "title" }, parent := some 3 },
        some { kind := .text "\n", parent := some 2 },
        some { kind := .element { tag := "body" }, parent := some 2, children := [7, 8] },
        some { kind := .text " ", parent := some 6 },
        some { kind := .element { tag := "p" }, parent := some 6, children := [9] },
        some { kind := .text " ", parent := some 8 },
        some { kind := .element { tag := "ul" } }],
      roots := [10] }
    d.WellFormed ∧ d.isFragment 0 ∧ d.parent? 0 = none ∧ d.IsContent 0 4 ∧ d.IsContent 0 8 ∧
      ¬ d.IsContent 0 7 ∧ [1, 4, 8].Pairwise d.Precedes ∧ d.Gathers 0 [1, 4, 8] (d.liftForest 0).1 := by
  intro d
  have h : d.WellFormed := by decide +kernel
  have hc : d.isFragment 0 := by decide
  have htop : d.parent? 0 = none := by decide
  have hforest : (d.liftForest 0).2 = [1, 4, 8] := by decide +kernel
  obtain ⟨hmem, hordered, hgathers⟩ := h.liftForest_keeps_content hc htop
  rw [hforest] at hmem hordered hgathers
  exact ⟨h, hc, htop, (hmem 4).1 (by decide), (hmem 8).1 (by decide), fun hblank =>
    absurd ((hmem 7).2 hblank) (by decide), hordered, hgathers⟩

end Document

namespace Markup

theorem gathers_forest (markup : String) : (Site.run {} (Construction.edits markup)).document.Gathers 0
    (forest markup).2 (forest markup).1 := by
  have hsite := Site.apart_run Document.wellFormed_empty Document.fragmentsOnTop_empty (Construction.edits markup)
  have hgathers : (Site.run {} (Construction.edits markup)).document.Gathers
      (Site.run {} (Construction.edits markup)).container (forest markup).2 (forest markup).1 :=
    hsite.wellFormed.gathers_liftForest hsite.isFragment (hsite.fragmentsOnTop _ hsite.isFragment)
  rwa [Site.container_run] at hgathers

end Markup
end DomQuery
