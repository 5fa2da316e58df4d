import DomQuery.Collection.Filtering
import DomQuery.Proofs.Document.OrderedForest
import DomQuery.Proofs.Document.Preorder
import DomQuery.Proofs.Document.Slots
import DomQuery.Proofs.Markup.Rendering
import Mathlib.Data.List.Chain

/-!
Markup within markup. The writer follows the links from edge to edge, but what it writes is nested as the
tree is: between the marks of a node stands the markup of its children, one after the other, and a subtree
is written alike wherever the writer starts.
-/
namespace DomQuery

def Edge.node : Edge → NodeId
  | .enter n => n
  | .leave n => n

namespace Document
variable {d : Document} {n p : NodeId} {bound : Nat} {cs : List NodeId} {options : RenderOptions}

/-! Edges. -/

/-- The edge behind another one on the way around a tree: down to the first child, on to the next sibling,
or back to the parent. -/
def nextEdge? (d : Document) : Edge → Option Edge
  | .enter n => some (((d.firstChild? n).map .enter).getD (.leave n))
  | .leave n => ((d.following n).head?.map .enter).or ((d.parent? n).map .leave)

theorem edgesOnto_append (rest : List Edge) :
    d.edgesOnto bound n rest = d.edgesOnto bound n [] ++ rest := by
  induction bound generalizing n rest with
  | zero => rfl
  | succ bound ih =>
    rw [edgesOnto, edgesOnto, foldr_onto fun _ => ih, foldr_onto fun _ => ih, List.cons_append,
      List.append_assoc]
    rfl

theorem edgesOnto_succ : d.edgesOnto (bound + 1) n [] =
    .enter n :: ((d.children n).flatMap (d.edgesOnto bound · []) ++ [.leave n]) := by
  rw [edgesOnto, foldr_onto fun _ => edgesOnto_append]

theorem innerEdges_eq : d.innerEdges n = (d.children n).flatMap d.edges := by
  rw [innerEdges, foldr_onto fun _ => edgesOnto_append, List.append_nil]
  rfl

namespace WellFormed
variable (h : d.WellFormed)
include h

/-- A way that may go as deep as there are slots left leads all around. -/
theorem edgesOnto_eq (hpos : 0 < d.slots.size)
    (hbound : d.slots.size ≤ bound + (d.ancestors n).length) :
    d.edgesOnto bound n [] = .enter n :: (d.innerEdges n ++ [.leave n]) := by
  induction n using h.descend generalizing bound with
  | step n ih =>
    have hdepth := h.length_ancestors_lt (n := n) hpos
    obtain ⟨bound, rfl⟩ : ∃ k, bound = k + 1 := Nat.exists_eq_add_one.2 (by omega)
    rw [edgesOnto_succ, innerEdges_eq]
    congr 2
    refine List.flatMap_congr fun c hc => ?_
    have hlen := h.length_ancestors_of_mem_children hc
    rw [edges, ih c hc (by omega), ih c hc (by omega)]

theorem edges_eq (hpos : 0 < d.slots.size) :
    d.edges n = .enter n :: (d.innerEdges n ++ [.leave n]) :=
  h.edgesOnto_eq hpos (Nat.le_add_right ..)

theorem isWithin_of_mem_innerEdges {edge : Edge} (hedge : edge ∈ d.innerEdges n) :
    d.isWithin edge.node n := by
  by_cases hpos : 0 < d.slots.size
  · induction n using h.descend with
    | step n ih =>
      rw [innerEdges_eq, List.mem_flatMap] at hedge
      obtain ⟨c, hc, hedge⟩ := hedge
      have hwithin := h.isWithin_of_mem_children hc
      rw [h.edges_eq hpos, List.mem_cons, List.mem_append, List.mem_singleton] at hedge
      obtain rfl | hedge | rfl := hedge
      · exact hwithin
      · exact isWithin_trans (ih c hc hedge) hwithin
      · exact hwithin
  · have hnil : d.children n = [] :=
      List.eq_nil_iff_forall_not_mem.2 fun c hc => hpos (Nat.zero_lt_of_lt (lt_size_of_mem_children hc))
    rw [innerEdges_eq, hnil] at hedge
    cases hedge

theorem isChain_children (before : List NodeId) (hpos : 0 < d.slots.size)
    (hcs : d.children p = before ++ cs)
    (hbelow : ∀ c ∈ cs, (d.edges c).IsChain fun a b => d.nextEdge? a = some b) :
    (cs.flatMap d.edges ++ [Edge.leave p]).IsChain fun a b => d.nextEdge? a = some b := by
  induction cs generalizing before with
  | nil => exact .singleton _
  | cons c cs ih =>
    obtain ⟨hc, hbelow⟩ := List.forall_mem_cons.1 hbelow
    have hp : d.parent? c = some p := h.parent?_eq_some_iff.2 (by simp [hcs])
    rw [List.flatMap_cons, List.append_assoc]
    refine hc.append (ih (before ++ [c]) (by simp [hcs]) hbelow) fun a ha b hb => ?_
    rw [h.edges_eq hpos, ← List.cons_append, List.getLast?_concat, Option.mem_some_iff] at ha
    subst ha
    rw [nextEdge?, h.following_of_children hcs, hp]
    cases cs with
    | nil => exact hb
    | cons s cs =>
      rw [List.flatMap_cons, h.edges_eq hpos] at hb
      exact hb

theorem isChain_edges (hpos : 0 < d.slots.size) (n : NodeId) :
    (d.edges n).IsChain fun a b => d.nextEdge? a = some b := by
  induction n using h.descend with
  | step n ih =>
    rw [h.edges_eq hpos, innerEdges_eq]
    refine List.isChain_cons.2 ⟨fun b hb => ?_, h.isChain_children [] hpos rfl ih⟩
    rw [nextEdge?, firstChild?]
    cases hcs : d.children n with
    | nil =>
      rw [hcs] at hb
      exact hb
    | cons c cs =>
      rw [hcs, List.flatMap_cons, h.edges_eq hpos] at hb
      exact hb

end WellFormed

/-! Markup. -/

theorem renderEdges_append (edges more : List Edge) :
    d.renderEdges options (edges ++ more) = d.renderEdges options edges ++ d.renderEdges options more := by
  rw [renderEdges_eq_join, renderEdges_eq_join, renderEdges_eq_join, List.map_append, String.join_append]

theorem innerMarkup_eq_join (d : Document) (n : NodeId) (options : RenderOptions) :
    d.innerMarkup n options = String.join ((d.children n).map fun c => d.outerMarkup c options) := by
  rw [innerMarkup, innerEdges_eq]
  induction d.children n with
  | nil => rfl
  | cons c cs ih => rw [List.flatMap_cons, renderEdges_append, ih, List.map_cons, String.join_cons, outerMarkup]

theorem WellFormed.outerMarkup_of_kind? (h : d.WellFormed) {kind : Kind} (hkind : d.kind? n = some kind) :
    d.outerMarkup n options = Render.opening options (d.parentTag? n) kind ++ d.innerMarkup n options ++
      Render.closing kind := by
  have hpos : 0 < d.slots.size := Nat.zero_lt_of_lt (lt_fresh (isAllocated_of_kind? hkind))
  rw [outerMarkup, h.edges_eq hpos, renderEdges_cons, renderEdges_append, renderEdges_cons,
    renderEdges_nil, edgeMarkup_enter, edgeMarkup_leave, hkind, innerMarkup, String.append_empty,
    String.append_assoc]
  rfl

theorem WellFormed.outerMarkup_of_isLeaf (h : d.WellFormed) {kind : Kind} (hkind : d.kind? n = some kind)
    (hleaf : kind.isLeaf) : d.outerMarkup n options = Render.opening options (d.parentTag? n) kind := by
  have hinner : d.innerMarkup n options = "" := by
    rw [innerMarkup_eq_join, h.children_of_isLeaf (by rwa [isLeaf, hkind])]
    rfl
  have hclosing : Render.closing kind = "" := by
    cases kind with
    | element e => cases hleaf
    | _ => rfl
  rw [h.outerMarkup_of_kind? hkind, hinner, hclosing, String.append_empty, String.append_empty]

theorem WellFormed.outerMarkup_of_fragment (h : d.WellFormed) (hkind : d.kind? n = some .fragment) :
    d.outerMarkup n options = d.innerMarkup n options := by
  calc
    d.outerMarkup n options = "" ++ d.innerMarkup n options ++ "" := h.outerMarkup_of_kind? hkind
    _ = d.innerMarkup n options := by rw [String.empty_append, String.append_empty]

theorem WellFormed.innerEdges_eq_filter (h : d.WellFormed) (hn : d.isAllocated n) :
    d.innerEdges n = (d.edges n).filter (·.node ≠ n) := by
  have hbelow : (d.innerEdges n).filter (·.node ≠ n) = d.innerEdges n := by
    refine List.filter_eq_self.2 fun edge hedge => decide_eq_true fun heq => ?_
    have hwithin := h.isWithin_of_mem_innerEdges hedge
    rw [heq] at hwithin
    exact h.not_isWithin_self n hwithin
  rw [h.edges_eq (Nat.zero_lt_of_lt (lt_fresh hn)), List.filter_cons_of_neg (by simp [Edge.node]),
    List.filter_append, hbelow, List.filter_cons_of_neg (by simp [Edge.node]), List.filter_nil,
    List.append_nil]

theorem join_map_cut {before after : List NodeId} (f : NodeId → String) :
    String.join ((before ++ n :: after).map f) =
      String.join (before.map f) ++ f n ++ String.join (after.map f) := by
  rw [List.map_append, List.map_cons, String.join_append, String.join_cons, String.append_assoc]

theorem outerMarkup_collection (c : Collection) (d : Document) :
    c.outerMarkup d = String.join (c.nodes.map fun n => d.outerMarkup n) := by
  rw [Collection.outerMarkup, String.join, List.foldl_map]

/-- The writer goes around a node by the links, and leaves the edges of the node itself out for the markup
inside. The markup is that of the tree: a node is written as its marks with the markup of its children
between them, an element of a void tag without an end tag and a fragment without marks, and a text by its
data, the options and the tag around it. So the markup of the node is a piece of the markup inside its
parent and of the markup of every collection that lists it. -/
theorem markup_nests (d : Document) (h : d.WellFormed) (n : NodeId) (hn : d.isAllocated n)
    (options : RenderOptions) :
    let outer (m : NodeId) := d.outerMarkup m options
    let join (ns : List NodeId) := String.join (ns.map outer)
    ((d.edges n).head? = some (.enter n) ∧ (d.edges n).getLast? = some (.leave n) ∧
      (d.edges n).IsChain (fun a b => d.nextEdge? a = some b) ∧
      d.innerEdges n = (d.edges n).filter (·.node ≠ n)) ∧
    outer n = (d.treeAt n).markup options (d.parentTag? n) ∧
    d.innerMarkup n options = join (d.children n) ∧
    (∀ e, d.kind? n = some (.element e) →
      outer n = Render.openTag options e ++ d.innerMarkup n options ++
        if Markup.isVoid e.tag then "" else "</" ++ e.tag ++ ">") ∧
    (d.kind? n = some .fragment → outer n = d.innerMarkup n options) ∧
    (∀ data, d.kind? n = some (.text data) →
      outer n = Render.text (Render.styleIn options (d.parentTag? n)) data) ∧
    (∀ data, d.kind? n = some (.comment data) → outer n = "<!--" ++ data ++ "-->") ∧
    (∀ p, d.parent? n = some p → ∃ before after, d.children p = before ++ n :: after ∧
      d.innerMarkup p options = join before ++ outer n ++ join after) ∧
    ∀ (c : Collection) before after, c.nodes = before ++ n :: after →
      c.outerMarkup d = String.join (before.map fun m => d.outerMarkup m) ++ d.outerMarkup n ++
        String.join (after.map fun m => d.outerMarkup m) ∧
      (before = [] → c.innerMarkup? d = some (d.innerMarkup n)) := by
  intro outer join
  have hpos : 0 < d.slots.size := Nat.zero_lt_of_lt (lt_fresh hn)
  have hedges := h.edges_eq (n := n) hpos
  refine ⟨⟨by rw [hedges]; rfl, by rw [hedges, ← List.cons_append, List.getLast?_concat],
    h.isChain_edges hpos n, h.innerEdges_eq_filter hn⟩, h.outerMarkup_eq n options,
    innerMarkup_eq_join d n options, fun e hkind => h.outerMarkup_of_kind? hkind,
    h.outerMarkup_of_fragment, fun data hkind => h.outerMarkup_of_isLeaf hkind rfl,
    fun data hkind => h.outerMarkup_of_isLeaf hkind rfl, fun p hp => ?_,
    fun c before after hc => ⟨?_, ?_⟩⟩
  · obtain ⟨before, after, hcs⟩ := List.append_of_mem (h.parent?_eq_some_iff.1 hp)
    exact ⟨before, after, hcs, by rw [innerMarkup_eq_join, hcs, join_map_cut]⟩
  · rw [outerMarkup_collection, hc, join_map_cut]
  · rintro rfl
    rw [Collection.innerMarkup?, Collection.first?, hc]
    rfl

/-- A void element with a text inside, in a fragment beside a script. -/
theorem markup_nests_void :
    let d : Document := { slots := #[
      some { kind := .fragment, children := [1, 3] },
      some { kind := .element { tag := "BR", attributes := [("b", ""), ("a", "\"")] }
             parent := some 0, children := [2] },
      some { kind := .text "<x", parent := some 1 },
      some { kind := .element { tag := "script" }, parent := some 0, children := [4] },
      some { kind := .text "</script", parent := some 3 }] }
    let options : RenderOptions := {}
    d.WellFormed ∧ d.isAllocated 1 ∧
      d.edges 0 = [.enter 0, .enter 1, .enter 2, .leave 2, .leave 1, .enter 3, .enter 4, .leave 4,
        .leave 3, .leave 0] ∧
      d.outerMarkup 1 options =
        Render.openTag options { tag := "BR", attributes := [("b", ""), ("a", "\"")] } ++
          d.innerMarkup 1 options ++ "" ∧
      d.outerMarkup 1 options = "<BR b=\"\" a=\"&quot;\">&lt;x" ∧
      d.outerMarkup 0 options = d.outerMarkup 1 options ++ "<script><\\/script</script>" := by
  intro d options
  have h : d.WellFormed := by decide +kernel
  obtain ⟨-, -, -, helement, -⟩ := markup_nests d h 1 (by decide) options
  exact ⟨h, by decide, by decide +kernel, helement _ rfl, by decide +kernel, by decide +kernel⟩

end Document
end DomQuery
