import DomQuery.Proofs.Document.Sorting
import DomQuery.Proofs.Result
import DomQuery.Workspace

/-!
Adding collections. On the nodes of one tree document order is strict and total, so a list in this order is
determined by its members: what is added in whatever order, and however it is grouped, gives the same list.
-/
namespace DomQuery

namespace Document
variable {d : Document} {t : NodeId} {nodes xs ys : List NodeId}

/-- All the nodes stand in the tree with this root. -/
def StandIn (d : Document) (t : NodeId) (nodes : List NodeId) : Prop := ∀ n ∈ nodes, d.top n = t

instance (d : Document) (t : NodeId) (nodes : List NodeId) : Decidable (d.StandIn t nodes) :=
  inferInstanceAs (Decidable (∀ n ∈ nodes, d.top n = t))

namespace WellFormed
variable (h : d.WellFormed)
include h

theorem pairwise_precedes_sortByOrder (hnodes : nodes.Nodup) (htree : d.StandIn t nodes) :
    (d.sortByOrder nodes).Pairwise d.Precedes := by
  have hnodup : (d.sortByOrder nodes).Nodup := (d.sortByOrder_perm nodes).nodup_iff.2 hnodes
  refine ((h.pairwise_sortByOrder nodes).and hnodup).imp_of_mem fun {a b} ha hb ⟨hab, hne⟩ => ?_
  have htop : d.top a = d.top b := by
    rw [htree a (mem_sortByOrder.1 ha), htree b (mem_sortByOrder.1 hb)]
  obtain ⟨-, hab⟩ | hlt := hab
  · exact hab.resolve_left hne
  · exact absurd hlt (by rw [htop]; exact Nat.lt_irrefl _)

end WellFormed
end Document

namespace Workspace
open Document
variable {a b : Collection} {t : NodeId}

theorem add_collection (ws : Workspace) (a b : Collection) :
    ws.add a (.collection b) = .ok (a.derive ((ws.document a.dom).sortByOrder
      (distinct (a.nodes ++ if b.dom = a.dom then b.nodes else [])))) := rfl

theorem exists_add (ws : Workspace) (h : (ws.document a.dom).WellFormed) (hb : b.dom = a.dom)
    (htree : (ws.document a.dom).StandIn t (a.nodes ++ b.nodes)) :
    ∃ sum, ws.add a (.collection b) = .ok sum ∧ sum.dom = a.dom ∧
      sum.nodes.Pairwise (ws.document a.dom).Precedes ∧
      ∀ n, n ∈ sum.nodes ↔ n ∈ a.nodes ∨ n ∈ b.nodes := by
  have hsorted : ((ws.document a.dom).sortByOrder (distinct (a.nodes ++ b.nodes))).Pairwise
      (ws.document a.dom).Precedes :=
    h.pairwise_precedes_sortByOrder nodup_distinct fun n hn => htree n (mem_distinct.1 hn)
  have hadd := add_collection ws a b
  rw [if_pos hb] at hadd
  refine ⟨_, hadd, rfl, hsorted.sublist distinct_sublist, fun n => ?_⟩
  rw [Collection.nodes_derive, mem_distinct, mem_sortByOrder, mem_distinct, List.mem_append]

theorem add_of_dom_ne (ws : Workspace) (hb : b.dom ≠ a.dom) :
    ∃ sum, ws.add a (.collection b) = .ok sum ∧
      sum.nodes = (ws.document a.dom).sortByOrder (distinct a.nodes) := by
  have hadd := add_collection ws a b
  rw [if_neg hb, List.append_nil] at hadd
  exact ⟨_, hadd, distinct_of_nodup (((ws.document a.dom).sortByOrder_perm _).nodup_iff.2 nodup_distinct)⟩

/-- Adding is the union of sets of nodes. For collections in one tree it is commutative and associative, a
collection added to itself is sorted, and the sum lists the nodes of both, each once, in document order.
Wherever the nodes of a collection are, what is in another document adds nothing. -/
theorem add_unites (ws : Workspace) :
    (∀ (a b c : Collection) (t : NodeId), (ws.document a.dom).WellFormed → b.dom = a.dom → c.dom = a.dom →
      a.nodes.Nodup → (ws.document a.dom).StandIn t (a.nodes ++ b.nodes ++ c.nodes) →
      let d := ws.document a.dom
      ∃ ab ba bc abThenC aThenBc aa,
        ws.add a (.collection b) = .ok ab ∧ ws.add b (.collection a) = .ok ba ∧
        ws.add b (.collection c) = .ok bc ∧ ws.add ab (.collection c) = .ok abThenC ∧
        ws.add a (.collection bc) = .ok aThenBc ∧ ws.add a (.collection a) = .ok aa ∧
        ab.nodes = ba.nodes ∧ abThenC.nodes = aThenBc.nodes ∧ aa.nodes = d.sortByOrder a.nodes ∧
        (∀ n, n ∈ ab.nodes ↔ n ∈ a.nodes ∨ n ∈ b.nodes) ∧ ab.nodes.Nodup ∧
        ab.nodes.Pairwise d.Precedes) ∧
      ∀ a b : Collection, b.dom ≠ a.dom → ∃ ab, ws.add a (.collection b) = .ok ab ∧
        ab.nodes = (ws.document a.dom).sortByOrder (distinct a.nodes) ∧
        ∀ n, n ∈ ab.nodes ↔ n ∈ a.nodes := by
  refine ⟨fun a b c t h hb hc ha htree => ?_, fun a b hb => ?_⟩
  case refine_2 =>
    obtain ⟨ab, hab, hnodes⟩ := add_of_dom_ne ws hb
    exact ⟨ab, hab, hnodes, fun n => by rw [hnodes, mem_sortByOrder, mem_distinct]⟩
  intro d
  have hta (n : NodeId) (hn : n ∈ a.nodes) : d.top n = t := htree n (by simp [hn])
  have htb (n : NodeId) (hn : n ∈ b.nodes) : d.top n = t := htree n (by simp [hn])
  have htc (n : NodeId) (hn : n ∈ c.nodes) : d.top n = t := htree n (by simp [hn])
  -- a sum stands in the same tree, so it can be added again
  have hsum {x y : Collection} (hx : x.dom = a.dom) (hy : y.dom = a.dom)
      (htx : ∀ n ∈ x.nodes, d.top n = t) (hty : ∀ n ∈ y.nodes, d.top n = t) :
      ∃ sum, ws.add x (.collection y) = .ok sum ∧ sum.dom = a.dom ∧ sum.nodes.Pairwise d.Precedes ∧
        (∀ n, n ∈ sum.nodes ↔ n ∈ x.nodes ∨ n ∈ y.nodes) ∧ ∀ n ∈ sum.nodes, d.top n = t := by
    have htree : d.StandIn t (x.nodes ++ y.nodes) :=
      fun n hn => (List.mem_append.1 hn).elim (htx n) (hty n)
    obtain ⟨sum, hadd, hdom, hsorted, hmem⟩ := exists_add ws (by rwa [hx]) (hy.trans hx.symm)
      (by rwa [hx])
    rw [hx] at hdom hsorted
    exact ⟨sum, hadd, hdom, hsorted, hmem, fun n hn => ((hmem n).1 hn).elim (htx n) (hty n)⟩
  obtain ⟨ab, hab, habdom, habsorted, habmem, htab⟩ := hsum rfl hb hta htb
  obtain ⟨ba, hba, -, hbasorted, hbamem, -⟩ := hsum hb rfl htb hta
  obtain ⟨bc, hbc, hbcdom, -, hbcmem, htbc⟩ := hsum hb hc htb htc
  obtain ⟨abThenC, habThenC, -, hleft, hleftmem, -⟩ := hsum habdom hc htab htc
  obtain ⟨aThenBc, haThenBc, -, hright, hrightmem, -⟩ := hsum rfl hbcdom hta htbc
  obtain ⟨aa, haa, -, haasorted, haamem, -⟩ := hsum rfl rfl hta hta
  refine ⟨ab, ba, bc, abThenC, aThenBc, aa, hab, hba, hbc, habThenC, haThenBc, haa, ?_, ?_, ?_,
    habmem, nodup_of_pairwise (fun _ _ => h.precedes_asymm) habsorted, habsorted⟩
  · refine eq_of_pairwise (fun _ _ => h.precedes_asymm) habsorted hbasorted fun n => ?_
    rw [habmem, hbamem, or_comm]
  · refine eq_of_pairwise (fun _ _ => h.precedes_asymm) hleft hright fun n => ?_
    rw [hleftmem, hrightmem, habmem, hbcmem, or_assoc]
  · refine eq_of_pairwise (fun _ _ => h.precedes_asymm) haasorted (h.pairwise_precedes_sortByOrder ha hta) fun n => ?_
    rw [haamem, mem_sortByOrder, or_self]

/-- A list that is out of order and overlaps with the others, in the tree of a fragment. -/
theorem add_unites_fragment :
    let ws : Workspace := { documents := #[{ slots := #[
      some { kind := .fragment, children := [1, 2] },
      some { kind := .element { tag := "p" }, parent := some 0, children := [3] },
      some { kind := .text "t", parent := some 0 },
      some { kind := .element { tag := "b" }, parent := some 1 }] }, {}] }
    let a : Collection := { dom := 0, nodes := [2, 3] }
    let b : Collection := { dom := 0, nodes := [1, 2] }
    let c : Collection := { dom := 0, nodes := [0, 1] }
    let x : Collection := { dom := 1, nodes := [1] }
    (ws.document 0).WellFormed ∧ (ws.document 0).StandIn 0 (a.nodes ++ b.nodes ++ c.nodes) ∧
      (ws.add a (.collection b)).map (·.nodes) = .ok [1, 3, 2] ∧
      (ws.add b (.collection a)).map (·.nodes) = .ok [1, 3, 2] ∧
      (ws.add a (.collection x)).map (·.nodes) = .ok [3, 2] := by
  intro ws a b c x
  have h : (ws.document 0).WellFormed := by decide +kernel
  have htree : (ws.document 0).StandIn 0 (a.nodes ++ b.nodes ++ c.nodes) := by decide +kernel
  obtain ⟨hunites, hforeign⟩ := add_unites ws
  obtain ⟨ab, ba, -, -, -, -, hab, hba, -, -, -, -, hcomm, -, -, hmem, -, hsorted⟩ :=
    hunites a b c 0 h rfl rfl (by decide) htree
  obtain ⟨ax, hax, hnodes, -⟩ := hforeign a x (by decide)
  -- paths tell the order: `p`, the `b` in it, the text
  have hpaths : ∀ m ∈ [1, 3, 2], (ws.document 0).top m = 0 := by decide +kernel
  have hkeys : [1, 3, 2].Pairwise
      fun a b => a ≠ b ∧ keyLe ((ws.document 0).path a) ((ws.document 0).path b) := by decide +kernel
  have horder : [1, 3, 2].Pairwise (ws.document 0).Precedes := by
    refine hkeys.imp_of_mem fun {m n} hm hn ⟨hne, hle⟩ => ?_
    exact ((h.keyLe_path_iff ((hpaths m hm).trans (hpaths n hn).symm)).1 hle).resolve_left hne
  have habnodes : ab.nodes = [1, 3, 2] := by
    refine eq_of_pairwise (fun _ _ => h.precedes_asymm) hsorted horder fun n => ?_
    rw [hmem]
    simp only [a, b, List.mem_cons, List.not_mem_nil, or_false]
    tauto
  have haxnodes : ax.nodes = [3, 2] := by
    rw [hnodes, distinct_of_nodup (by decide)]
    refine eq_of_pairwise (fun _ _ => h.precedes_asymm) (h.pairwise_precedes_sortByOrder (by decide) fun n hn =>
      htree n (by simp [hn])) (horder.sublist (by decide)) fun n => ?_
    rw [mem_sortByOrder]
    simp [a, or_comm]
  rw [hab, hba, hax]
  exact ⟨h, htree, by rw [← habnodes]; rfl, by rw [← habnodes, hcomm]; rfl, by rw [← haxnodes]; rfl⟩

end Workspace
end DomQuery
