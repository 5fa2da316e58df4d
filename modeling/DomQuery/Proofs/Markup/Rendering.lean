import DomQuery.Document.Render
import DomQuery.Document.Tree
import DomQuery.Proofs.Document.WellFormed

/-!
The markup of a node is that of the tree below it. The ids of the nodes leave no trace in it, and of
what is around the node only the tag of its parent does, which says how a text is written.
-/
namespace DomQuery

def Kind.tag? (kind : Kind) : Option String := kind.element?.map (·.tag)

mutual

/-- The markup of a tree in an element of tag `parentTag`. -/
def Tree.markup (options : RenderOptions) (parentTag : Option String) : Tree → String
  | .node kind _ children =>
    Render.opening options parentTag kind ++ Tree.markupAll options kind.tag? children ++
      Render.closing kind

def Tree.markupAll (options : RenderOptions) (parentTag : Option String) : List Tree → String
  | [] => ""
  | tree :: trees => tree.markup options parentTag ++ Tree.markupAll options parentTag trees

end

namespace Tree
variable {options : RenderOptions} {p q : Option String}

theorem markup_congr (h : Render.styleIn options p = Render.styleIn options q) (tree : Tree) :
    tree.markup options p = tree.markup options q := by
  obtain ⟨kind, space, children⟩ := tree
  rw [markup, markup]
  cases kind with
  | text data => rw [Render.opening, Render.opening, h]
  | _ => rfl

theorem markupAll_congr (h : Render.styleIn options p = Render.styleIn options q) (trees : List Tree) :
    markupAll options p trees = markupAll options q trees := by
  induction trees with
  | nil => rfl
  | cons tree trees ih => rw [markupAll, markupAll, markup_congr h, ih]

end Tree

namespace Render

/-- A start tag with its attributes in this order. -/
def tagWith (tag : String) (attributes : Entries String) : String :=
  "<" ++ tag ++ String.join (attributes.map fun a => attributeText a.1 a.2) ++ ">"

theorem foldl_append_eq_join {α : Type} (f : α → String) (xs : List α) (out : String) :
    xs.foldl (fun out x => out ++ f x) out = out ++ String.join (xs.map f) := by
  induction xs generalizing out with
  | nil => exact String.append_empty.symm
  | cons x xs ih => rw [List.foldl_cons, ih, List.map_cons, String.join_cons, String.append_assoc]

theorem openTag_eq_tagWith (options : RenderOptions) (e : Element) :
    openTag options e = tagWith e.tag (attributes options e) := by
  rw [openTag, tagWith, ← foldl_append_eq_join]

end Render

namespace Document
variable {d : Document} {n p c : NodeId} {options : RenderOptions} {bound : Nat}

theorem renderEdges_nil : d.renderEdges options [] = "" := rfl

theorem renderEdges_eq_join (edges : List Edge) :
    d.renderEdges options edges = String.join (edges.map (d.edgeMarkup options)) := by
  rw [renderEdges, String.join, List.foldl_map]

theorem renderEdges_cons (edge : Edge) (edges : List Edge) :
    d.renderEdges options (edge :: edges) =
      d.edgeMarkup options edge ++ d.renderEdges options edges := by
  rw [renderEdges_eq_join, renderEdges_eq_join, List.map_cons, String.join_cons]

theorem edgeMarkup_enter :
    d.edgeMarkup options (.enter n) =
      Render.opening options (d.parentTag? n) ((d.kind? n).getD .fragment) := by
  rw [edgeMarkup]
  cases d.kind? n <;> rfl

theorem edgeMarkup_leave :
    d.edgeMarkup options (.leave n) = Render.closing ((d.kind? n).getD .fragment) := by
  rw [edgeMarkup]
  cases d.kind? n <;> rfl

theorem tag?_getD_kind? : ((d.kind? n).getD .fragment).tag? = d.tag? n := by
  rw [tag?, element?]
  cases d.kind? n <;> rfl

namespace WellFormed
variable (h : d.WellFormed)
include h

theorem parentTag?_of_mem_children (hc : c ∈ d.children p) : d.parentTag? c = d.tag? p := by
  rw [parentTag?, h.parent?_eq_some_iff.2 hc, Option.bind_some]

theorem renderEdges_foldr {cs : List NodeId} (hcs : cs ⊆ d.children p)
    (hbelow : ∀ c rest, d.renderEdges options (d.edgesOnto bound c rest) =
      (d.treeWithin bound c).markup options (d.parentTag? c) ++ d.renderEdges options rest)
    (rest : List Edge) :
    d.renderEdges options (cs.foldr (d.edgesOnto bound) rest) =
      Tree.markupAll options (d.tag? p) (cs.map (d.treeWithin bound)) ++ d.renderEdges options rest := by
  induction cs with
  | nil => simp [Tree.markupAll]
  | cons c cs ih =>
    obtain ⟨hc, hcs⟩ := List.cons_subset.1 hcs
    rw [List.foldr_cons, hbelow, ih hcs, h.parentTag?_of_mem_children hc, List.map_cons,
      Tree.markupAll, String.append_assoc]

theorem renderEdges_edgesOnto (rest : List Edge) :
    d.renderEdges options (d.edgesOnto bound n rest) =
      (d.treeWithin bound n).markup options (d.parentTag? n) ++ d.renderEdges options rest := by
  induction bound generalizing n rest with
  | zero => simp [edgesOnto, treeWithin, default, Tree.markup, Tree.markupAll, Render.opening,
      Render.closing]
  | succ bound ih =>
    rw [edgesOnto, renderEdges_cons, h.renderEdges_foldr (List.Subset.refl _) fun _ => ih,
      renderEdges_cons, treeWithin, Tree.markup, edgeMarkup_enter, edgeMarkup_leave, tag?_getD_kind?]
    simp only [String.append_assoc]

theorem outerMarkup_eq (n : NodeId) (options : RenderOptions) :
    d.outerMarkup n options = (d.treeAt n).markup options (d.parentTag? n) := by
  rw [outerMarkup, edges, h.renderEdges_edgesOnto, renderEdges_nil, String.append_empty, treeAt]

end WellFormed
end Document
end DomQuery
