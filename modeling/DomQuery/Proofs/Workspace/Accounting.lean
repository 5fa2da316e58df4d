import DomQuery.Proofs.Document.Accounting
import DomQuery.Proofs.Workspace.Insertion

/-!
How many nodes there are after markup has been inserted. Besides what is placed there are two kinds of
nodes that no handle reaches: those that tree construction leaves outside the forest, and the copies for
targets that take none.
-/
namespace DomQuery
namespace Markup

/-- The number of nodes in the forest of a markup text. -/
def size (markup : String) : Nat := (forest markup).1.forestSize (forest markup).2

/-- The nodes that tree construction leaves apart from the forest. -/
def strays (markup : String) : List NodeId := (forest markup).1.astray 0

end Markup

namespace Document
variable {d : Document} {targets : List NodeId}

theorem forestSize_parse (d : Document) (markup : String) :
    (d.parse markup).1.forestSize (d.parse markup).2 = Markup.size markup := by
  have hforest := lifted_forest markup
  rw [parse_eq, Markup.size]
  generalize Markup.forest markup = forest at hforest
  refine forestSize_map fun n hn => ?_
  have hcontainer := hforest.isAllocated_iff.2 (List.ne_nil_of_mem hn)
  exact treeSize_graft hforest.wellFormed (Nat.zero_lt_of_lt (lt_fresh hcontainer)) d n

theorem nodeCount_parse (d : Document) (markup : String) :
    (d.parse markup).1.nodeCount = d.nodeCount + (Markup.strays markup).length +
      if (d.parse markup).2 = [] then 0 else 1 + Markup.size markup := by
  have hforest := lifted_forest markup
  rw [parse_eq, Markup.size, Markup.strays, nodeCount_graft, hforest.nodeCount, Nat.add_assoc]
  simp only [List.map_eq_nil_iff]

theorem WellFormed.nodeCount_distribute (h : d.WellFormed) (markup : String) (way : Place)
    (htargets : ∀ t ∈ targets, d.isAllocated t) {given : Document × List NodeId}
    (hgiven : given = (d.parse markup).1.distribute way targets (d.parse markup).2) :
    (given.1.discardScratch ((d.parse markup).1.scratch? (d.parse markup).2)).nodeCount =
      d.nodeCount +
        (given.1.discardScratch ((d.parse markup).1.scratch? (d.parse markup).2)).forestSize given.2 +
        (Markup.strays markup).length +
        (targets.tail.filter (d.refuses way ·)).length * Markup.size markup := by
  have hcounted := (h.parse markup).1.discardScratch_counted (h.lifted_parse markup) way htargets hgiven
  rw [nodeCount_parse, forestSize_parse] at hcounted
  omega

theorem nodeCount_detach (d : Document) (n : NodeId) : (d.detach n).nodeCount = d.nodeCount :=
  nodeCount_congr fun m => isAllocated_congr (data?_detach d n m)

theorem nodeCount_clearAll (d : Document) (ns : List NodeId) :
    (ns.foldl clearChildren d).nodeCount = d.nodeCount := by
  have hclear (d : Document) (n : NodeId) : (d.clearChildren n).nodeCount = d.nodeCount :=
    List.foldlRecOn (motive := (·.nodeCount = d.nodeCount)) (d.children n) detach rfl
      fun d' hd' m _ => (nodeCount_detach d' m).trans hd'
  exact List.foldlRecOn (motive := (·.nodeCount = d.nodeCount)) ns clearChildren rfl
    fun d' hd' n _ => (hclear d' n).trans hd'

end Document

namespace Workspace
open Document
variable {ws : Workspace} {c : Collection}

/-- The nodes that are put into the elements of a collection when markup replaces what is in them. -/
def placedInside (ws : Workspace) (c : Collection) (markup : String) : List NodeId :=
  let d := ws.document c.dom
  let elements := c.nodes.filter d.isElement
  let (d, nodes) := (elements.foldl clearChildren d).parse markup
  (d.distribute .append elements nodes).2

/-- There are as many nodes more as are placed, and besides them the strays, and a whole forest for each
target but the first that takes nothing. Elements always take what is put into them. -/
theorem nodeCount_insert_markup (h : ws.Sound) (hc : ws.Holds c.toSelection) (markup : String) :
    (∀ place, ((ws.insert c (.markup markup) place).document c.dom).nodeCount =
      (ws.document c.dom).nodeCount +
        ((ws.insert c (.markup markup) place).document c.dom).forestSize
          (ws.placed c (.markup markup) place) +
        (Markup.strays markup).length +
        (c.nodes.tail.filter ((ws.document c.dom).refuses place ·)).length * Markup.size markup) ∧
    ((ws.setMarkup c markup).document c.dom).nodeCount =
      (ws.document c.dom).nodeCount +
        ((ws.setMarkup c markup).document c.dom).forestSize (ws.placedInside c markup) +
        (Markup.strays markup).length := by
  have hdom := hc.1
  have hd := h.document c.dom
  refine ⟨fun place => ?_, ?_⟩
  · obtain ⟨-, hdocument, hnodes⟩ := nodesOf_markup hdom markup
    rw [document_insert hdom, placed, hdocument, hnodes]
    exact hd.toWellFormed.nodeCount_distribute markup place hc.2 rfl
  · let d := ws.document c.dom
    let elements := c.nodes.filter d.isElement
    have hbare : d.Evolves (fun _ => False) (elements.foldl clearChildren d) :=
      hd.evolves_foldl fun hd' _ n _ => hd'.evolves_clearChildren n
    have helements (t : NodeId) (ht : t ∈ elements) : d.isAllocated t :=
      hc.2 t (List.mem_of_mem_filter ht)
    have htaken : elements.tail.filter ((elements.foldl clearChildren d).refuses .append ·) = [] := by
      refine List.filter_eq_nil_iff.2 fun t ht => ?_
      have ht := List.mem_of_mem_tail ht
      have hrefuses : (elements.foldl clearChildren d).refuses .append t = d.isLeaf t :=
        isLeaf_congr (hbare.data? t (helements t ht) id)
      rw [hrefuses]
      exact not_isLeaf_of_isElement (List.of_mem_filter ht)
    have hcount := hbare.sound.toWellFormed.nodeCount_distribute markup .append
      (fun t ht => hbare.isAllocated t (helements t ht)) rfl
    rw [htaken, nodeCount_clearAll] at hcount
    rw [setMarkup, document_update_self hdom, placedInside]
    simpa using hcount

def paragraphAndText : List Operation :=
  [.change 0 (.create (.element { tag := "div" }) .html),
    .change 0 (.create (.element { tag := "p" }) .html), .change 0 (.create (.text "t") .html),
    .change 0 (.move (.lastIn 0) 1), .change 0 (.move (.lastIn 0) 2), .change 0 (.register [0])]

/-- The text takes nothing, and the copy for it stays. -/
theorem nodeCount_insert_paragraphAndText :
    let ws := ({} : Workspace).run paragraphAndText
    let c : Collection := { dom := 0, nodes := [1, 2] }
    ws.Holds c.toSelection ∧ (ws.document 0).nodeCount = 3 ∧
      (Markup.strays "<b></b>").length = 0 ∧ Markup.size "<b></b>" = 1 ∧
      ((ws.insert c (.markup "<b></b>") .append).document 0).nodeCount =
        3 + ((ws.insert c (.markup "<b></b>") .append).document 0).forestSize
          (ws.placed c (.markup "<b></b>") .append) + 0 + 1 * 1 := by
  intro ws c
  have hws : ws.Sound := sound_empty.run (by decide +kernel)
  have hc : ws.Holds c.toSelection := by decide +kernel
  have hbefore : (ws.document 0).nodeCount = 3 := by decide +kernel
  have hstrays : (Markup.strays "<b></b>").length = 0 := by decide +kernel
  have hsize : Markup.size "<b></b>" = 1 := by decide +kernel
  have hrefused : (c.nodes.tail.filter ((ws.document c.dom).refuses .append ·)).length = 1 := by
    decide +kernel
  have hcount := (nodeCount_insert_markup hws hc "<b></b>").1 .append
  rw [hstrays, hsize, hrefused] at hcount
  exact ⟨hc, hbefore, hstrays, hsize, hbefore ▸ hcount⟩

/-- So there are more nodes than before and those that are placed. -/
theorem nodeCount_insert_ne : ¬ ∀ (ws : Workspace) (c : Collection) (markup : String) (place : Place),
    ws.Sound → ws.Holds c.toSelection →
      ((ws.insert c (.markup markup) place).document c.dom).nodeCount =
        (ws.document c.dom).nodeCount +
          ((ws.insert c (.markup markup) place).document c.dom).forestSize
            (ws.placed c (.markup markup) place) := by
  intro hall
  let ws := ({} : Workspace).run paragraphAndText
  let c : Collection := { dom := 0, nodes := [1, 2] }
  have hcount := hall ws c "<b></b>" .append (sound_empty.run (by decide +kernel)) (by decide +kernel)
  revert hcount
  decide +kernel

end Workspace
end DomQuery
