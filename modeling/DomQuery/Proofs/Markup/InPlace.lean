import DomQuery.Markup.Forest
import DomQuery.Proofs.Document.Grafting
import DomQuery.Proofs.Document.Regathering

/-!
Building in place. A forest is built beside whatever the document holds, and comes out as the one that is
built in an empty document, under higher numbers.
-/
namespace DomQuery
variable {other : Document} {c : NodeId}

namespace Document

theorem text?_graft (d other : Document) (n : NodeId) : (d.graft other).text? (n + d.fresh) = other.text? n := by
  rw [text?, text?, kind?_graft]

theorem putText_graft (d other : Document) (spot : Spot) (text : String) :
    (d.graft other).putText (spot.shift d.fresh) text = d.graft (other.putText spot text) := by
  rw [putText, create_graft]
  exact tryPut_graft d _ spot other.fresh

theorem appendText_graft (d other : Document) (p : NodeId) (text : String) :
    (d.graft other).appendText (p + d.fresh) text = d.graft (other.appendText p text) := by
  have hput := putText_graft d other (.lastIn p) text
  rw [appendText, appendText, lastChild?, children_graft, List.getLast?_map, ← lastChild?]
  cases other.lastChild? p with
  | none => exact hput
  | some last =>
    dsimp only [Option.map_some]
    rw [text?_graft]
    split
    · exact hput
    · refine modify_graft d other last _ _ fun node => ?_
      obtain ⟨kind, ns, parent, children⟩ := node
      cases kind <;> rfl

end Document

/-! Edits. -/

namespace Markup.Site

/-- The site in a document with other nodes before it. -/
def graft (d : Document) (s : Site) : Site where
  document := d.graft s.document
  container := s.container + d.fresh
  nodes := s.nodes.map (· + d.fresh)

variable (d : Document) (s : Site)

theorem startIn_eq : startIn d = (startIn {}).graft d := by
  have hempty : d.graft {} = d := by
    rw [Document.graft, Array.map_empty, Array.append_empty]
  have hcreate := Document.create_graft d {} .fragment .html
  rw [hempty, show ({} : Document).fresh = 0 from rfl] at hcreate
  rw [startIn, hcreate]
  exact congrArg (Site.mk _ _) Array.map_empty.symm

theorem parent?_graft (parent : Option Handle) :
    (s.graft d).parent? parent = (s.parent? parent).map (· + d.fresh) := by
  cases parent with
  | none => rfl
  | some handle => exact Array.getElem?_map

theorem add_graft (kind : Kind) (ns : Namespace) : (s.graft d).add kind ns = (s.add kind ns).graft d := by
  rw [add, graft, Document.create_graft]
  exact congrArg _ Array.map_push.symm

theorem insert_graft (addition : Addition) (point : InsertionPoint) :
    (s.graft d).insert addition point = (s.insert addition point).graft d := by
  have hnode (handle : Handle) : (s.graft d).nodes[handle]? = s.nodes[handle]?.map (· + d.fresh) :=
    Array.getElem?_map
  have happend (parent : Option Handle) : (s.graft d).append parent addition = (s.append parent addition).graft d := by
    cases addition with
    | node handle =>
      rw [append, append, parent?_graft, hnode]
      cases s.parent? parent with
      | none => rfl
      | some p =>
        cases s.nodes[handle]? with
        | none => rfl
        | some n => exact congrArg (Site.mk · _ _) (Document.tryPut_graft d s.document (.lastIn p) n)
    | text text =>
      rw [append, append, parent?_graft]
      cases s.parent? parent with
      | none => rfl
      | some p => exact congrArg (Site.mk · _ _) (Document.appendText_graft d s.document p text)
  cases point with
  | inside parent => exact happend parent
  | misplaced table around => exact happend (some table)
  | before sibling =>
    cases addition with
    | node handle =>
      rw [insert, insert, appendBefore, appendBefore, hnode, hnode]
      cases s.nodes[sibling]? with
      | none => rfl
      | some b =>
        cases s.nodes[handle]? with
        | none => rfl
        | some n => exact congrArg (Site.mk · _ _) (Document.tryPut_graft d s.document (.before b) n)
    | text text =>
      rw [insert, insert, appendBefore, appendBefore, hnode]
      cases s.nodes[sibling]? with
      | none => rfl
      | some b => exact congrArg (Site.mk · _ _) (Document.putText_graft d s.document (.before b) text)

theorem apply_graft (edit : Edit) : (s.graft d).apply edit = (s.apply edit).graft d := by
  have hnode (handle : Handle) : (s.graft d).nodes[handle]? = s.nodes[handle]?.map (· + d.fresh) :=
    Array.getElem?_map
  cases edit with
  | element tag ns attributes => exact add_graft d s _ ns
  | comment text => exact add_graft d s _ .html
  | insert point addition => exact insert_graft d s addition point
  | detach node =>
    rw [apply, apply, hnode]
    cases s.nodes[node]? with
    | none => rfl
    | some n => exact congrArg (Site.mk · _ _) (Document.detach_graft d s.document n)
  | moveChildren source target =>
    rw [apply, apply, hnode, hnode]
    cases s.nodes[source]? with
    | none => rfl
    | some a =>
      cases s.nodes[target]? with
      | none => rfl
      | some b =>
        have hall := Document.tryPutAll_graft d s.document (.lastIn b) (s.document.children a)
        rw [← Document.children_graft] at hall
        exact congrArg (Site.mk · _ _) hall

theorem run_eq (edits : List Edit) : run d edits = (run {} edits).graft d := by
  rw [run, startIn_eq]
  exact List.foldl_hom (graft d) fun s edit => apply_graft d s edit

end Markup.Site

/-! Lifting. -/

namespace Document

theorem pageContent_graft (d other : Document) (c : NodeId) :
    (d.graft other).pageContent (c + d.fresh) = (other.pageContent c).map (· + d.fresh) := by
  have helements (n : NodeId) :
      (d.graft other).elementChildren (n + d.fresh) = (other.elementChildren n).map (· + d.fresh) := by
    rw [elementChildren, elementChildren, children_graft, List.filter_map]
    refine congrArg _ (List.filter_congr fun m _ => ?_)
    rw [Function.comp_apply, isElement, element?, kind?_graft]
    rfl
  rw [pageContent, pageContent, children_graft, List.flatMap_map, List.map_flatMap]
  refine List.flatMap_congr fun n _ => ?_
  rw [kind?_graft]
  split
  · split
    · rw [helements, List.flatMap_map, List.map_flatMap]
      exact List.flatMap_congr fun m _ => children_graft d other m
    · rfl
  · rfl
  · rfl

theorem WellFormed.regather_graft (h : other.WellFormed) (hpos : 0 < other.fresh) (d : Document)
    (c : NodeId) (ns : List NodeId) : (d.graft other).regather (c + d.fresh) (ns.map (· + d.fresh)) =
      d.graft (other.regather c ns) := by
  have hdetach := foldl_graft (detach_graft d) other ns
  have hpos' : 0 < (ns.foldl Document.detach other).fresh := by rwa [fresh_foldl_detach]
  have hdiscard := (h.foldl_detach ns).foldl_discard_graft hpos' d ((ns.foldl Document.detach other).children c)
  have hput (other : Document) : (ns.map (· + d.fresh)).foldl (fun d' n => d'.put (.lastIn (c + d.fresh)) n)
      (d.graft other) = d.graft (ns.foldl (fun d' n => d'.put (.lastIn c) n) other) :=
    foldl_graft (fun other n => put_graft d other (.lastIn c) n) other ns
  rw [regather, hdetach, children_graft, hdiscard]
  exact hput _

end Document
end DomQuery
