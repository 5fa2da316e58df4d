import DomQuery.Proofs.Document.Discard
import DomQuery.Proofs.Document.Growth

/-!
Grafting. The nodes of another document are added under new numbers and keep their links. What is then
done to them comes to the same as doing it before.
-/
namespace DomQuery
variable {d other : Document} {n : NodeId}

def Node.shift (offset : Nat) (node : Node) : Node :=
  { node with
    parent := node.parent.map (· + offset)
    children := node.children.map (· + offset) }

namespace Document

def graft (d other : Document) : Document :=
  { d with slots := d.slots ++ other.slots.map (Option.map (Node.shift d.fresh)) }

theorem node?_graft (d other : Document) (m : NodeId) :
    (d.graft other).node? m =
      if m < d.fresh then d.node? m else (other.node? (m - d.fresh)).map (Node.shift d.fresh) := by
  rw [node?, node?, node?, graft, Array.getElem?_append, fresh]
  split
  · rfl
  · rw [Array.getElem?_map]
    rcases other.slots[m - d.slots.size]? with - | - | node <;> rfl

theorem node?_graft_add (d other : Document) (m : NodeId) :
    (d.graft other).node? (m + d.fresh) = (other.node? m).map (Node.shift d.fresh) := by
  rw [node?_graft, if_neg (Nat.not_lt.2 (Nat.le_add_left ..)), Nat.add_sub_cancel]

theorem parent?_graft (d other : Document) (m : NodeId) :
    (d.graft other).parent? (m + d.fresh) = (other.parent? m).map (· + d.fresh) := by
  rw [parent?, parent?, node?_graft_add]
  cases other.node? m <;> rfl

theorem children_graft (d other : Document) (m : NodeId) :
    (d.graft other).children (m + d.fresh) = (other.children m).map (· + d.fresh) := by
  rw [children, children, node?_graft_add]
  cases other.node? m <;> rfl

theorem data?_graft (d other : Document) (m : NodeId) :
    (d.graft other).data? (m + d.fresh) = other.data? m := by
  rw [data?, data?, node?_graft_add]
  cases other.node? m <;> rfl

theorem kind?_graft (d other : Document) (m : NodeId) :
    (d.graft other).kind? (m + d.fresh) = other.kind? m := by
  rw [kind?_eq_data?, kind?_eq_data?, data?_graft]

theorem fresh_graft (d other : Document) : (d.graft other).fresh = other.fresh + d.fresh := by
  rw [fresh, graft, Array.size_append, Array.size_map, Nat.add_comm]
  rfl

theorem WellFormed.grows_graft (h : d.WellFormed) (other : Document) : d.Grows (d.graft other) where
  node? n hn := by rw [node?_graft, if_pos hn]
  fresh_le := fresh_graft d other ▸ Nat.le_add_left ..
  roots := rfl
  apart n p hp := by
    by_cases hn : n < d.fresh
    · rw [Document.parent?, node?_graft, if_pos hn] at hp
      have hlt := lt_fresh (h.isAllocated_parent hp)
      exact iff_of_false (Nat.not_le_of_lt hn) (Nat.not_le_of_lt hlt)
    · obtain ⟨m, rfl⟩ := Nat.exists_eq_add_of_le' (Nat.le_of_not_lt hn)
      rw [parent?_graft] at hp
      obtain ⟨q, -, rfl⟩ := Option.map_eq_some_iff.1 hp
      exact iff_of_true (Nat.le_add_left ..) (Nat.le_add_left ..)

theorem isWithin_graft (d other : Document) (a b : NodeId) :
    (d.graft other).isWithin (a + d.fresh) (b + d.fresh) = other.isWithin a b := by
  rw [Bool.eq_iff_iff]
  constructor
  · intro hab
    have hwalk {x y : NodeId} (hxy : Relation.TransGen (Climb.Step (d.graft other).parent?) x y) :
        ∀ a, x = a + d.fresh → ∃ b, y = b + d.fresh ∧ other.isWithin a b := by
      have hstep {x y a : NodeId} (hxy : (d.graft other).parent? x = some y) (hx : x = a + d.fresh) :
          ∃ b, y = b + d.fresh ∧ other.parent? a = some b := by
        rw [hx, parent?_graft] at hxy
        obtain ⟨b, hb, rfl⟩ := Option.map_eq_some_iff.1 hxy
        exact ⟨b, rfl, hb⟩
      induction hxy with
      | single hxy =>
        intro a hx
        obtain ⟨b, hy, hab⟩ := hstep hxy hx
        exact ⟨b, hy, isWithin_of_parent? hab⟩
      | tail _ hyz ih =>
        intro a hx
        obtain ⟨b, hy, hab⟩ := ih a hx
        obtain ⟨c, hz, hbc⟩ := hstep hyz hy
        exact ⟨c, hz, isWithin_trans hab (isWithin_of_parent? hbc)⟩
    obtain ⟨c, hc, hac⟩ := hwalk (isWithin_iff.1 hab) a rfl
    exact Nat.add_right_cancel hc ▸ hac
  · intro hab
    have hstep {x y : NodeId} (hxy : Climb.Step other.parent? x y) :
        Climb.Step (d.graft other).parent? (x + d.fresh) (y + d.fresh) :=
      (parent?_graft d other x).trans (congrArg (Option.map (· + d.fresh)) hxy)
    exact isWithin_iff.2 (Relation.TransGen.lift (· + d.fresh) (fun x y => hstep) a b (isWithin_iff.1 hab))

/-! Changes of single slots. -/

theorem create_graft (d other : Document) (kind : Kind) (ns : Namespace) :
    (d.graft other).create kind ns = (d.graft (other.create kind ns).1, other.fresh + d.fresh) := by
  rw [create, create, fresh_graft]
  simp only [add, graft, Array.map_push, Array.append_push, Option.map_some, Node.shift, Option.map_none,
    List.map_nil]

theorem modify_append_map {α β : Type} (xs : Array β) (ys : Array α) (view : α → β) (f : α → α) (g : β → β)
    (h : ∀ y, g (view y) = view (f y)) (n : Nat) :
    (xs ++ ys.map view).modify (n + xs.size) g = xs ++ (ys.modify n f).map view := by
  refine Array.ext_getElem? fun m => ?_
  rw [Array.getElem?_modify, Array.getElem?_append, Array.getElem?_append]
  by_cases hm : m < xs.size
  · rw [if_pos hm, if_pos hm, if_neg (Nat.ne_of_gt (Nat.lt_add_left n hm))]
  · obtain ⟨k, rfl⟩ := Nat.exists_eq_add_of_le' (Nat.le_of_not_lt hm)
    rw [if_neg hm, if_neg hm, Nat.add_sub_cancel, Array.getElem?_map, Array.getElem?_map,
      Array.getElem?_modify]
    by_cases hk : n = k
    · subst hk
      rw [if_pos rfl, if_pos rfl]
      cases ys[n]? with
      | none => rfl
      | some y => exact congrArg some (h y)
    · rw [if_neg fun heq => hk (Nat.add_right_cancel heq), if_neg hk]

theorem modify_graft (d other : Document) (n : NodeId) (f g : Node → Node)
    (h : ∀ node, g (node.shift d.fresh) = (f node).shift d.fresh) :
    (d.graft other).modify (n + d.fresh) g = d.graft (other.modify n f) := by
  refine congrArg (Document.mk · d.roots) (modify_append_map _ _ _ _ _ (fun slot => ?_) n)
  cases slot with
  | none => rfl
  | some node => exact congrArg some (h node)

theorem free_graft (d other : Document) (n : NodeId) :
    (d.graft other).free (n + d.fresh) = d.graft (other.free n) :=
  congrArg (Document.mk · d.roots) (modify_append_map _ _ _ (fun _ => none) (fun _ => none) (fun _ => rfl) n)

theorem foldl_graft {step step' : Document → NodeId → Document}
    (hstep : ∀ other n, step' (d.graft other) (n + d.fresh) = d.graft (step other n))
    (other : Document) (ns : List NodeId) :
    (ns.map (· + d.fresh)).foldl step' (d.graft other) = d.graft (ns.foldl step other) := by
  rw [List.foldl_map]
  exact List.foldl_hom d.graft fun other n => hstep other n

theorem setParent_graft (d other : Document) (n : NodeId) (parent : Option NodeId) :
    (d.graft other).modify (n + d.fresh) (fun node => { node with parent := parent.map (· + d.fresh) }) =
      d.graft (other.modify n fun node => { node with parent }) := modify_graft d other n _ _ fun _ => rfl

/-! Moves. -/

theorem detach_graft (d other : Document) (n : NodeId) :
    (d.graft other).detach (n + d.fresh) = d.graft (other.detach n) := by
  rw [detach, detach, parent?_graft]
  cases other.parent? n with
  | none => rfl
  | some p =>
    have hchildren := modify_graft d other p (fun node => { node with children := node.children.erase n })
      (fun node => { node with children := node.children.erase (n + d.fresh) }) fun node => by
        rw [Node.shift, Node.shift, List.map_erase fun a b hab => Nat.add_right_cancel hab]
    dsimp only [Option.map_some]
    rw [hchildren]
    exact setParent_graft d _ n none

end Document

def Spot.shift (offset : Nat) : Spot → Spot
  | .firstIn p => .firstIn (p + offset)
  | .lastIn p => .lastIn (p + offset)
  | .before s => .before (s + offset)
  | .after s => .after (s + offset)

namespace Spot

theorem parent?_shift (d other : Document) (spot : Spot) :
    (spot.shift d.fresh).parent? (d.graft other) = (spot.parent? other).map (· + d.fresh) := by
  cases spot with
  | firstIn | lastIn => rfl
  | before s | after s => exact Document.parent?_graft d other s

theorem isNextTo_shift (spot : Spot) (n : NodeId) (offset : Nat) :
    (spot.shift offset).isNextTo (n + offset) = spot.isNextTo n := by
  cases spot with
  | firstIn | lastIn => rfl
  | before s | after s => exact decide_eq_decide.2 Nat.add_right_cancel_iff

theorem insertInto_shift (spot : Spot) (n : NodeId) (children : List NodeId) (offset : Nat) :
    (spot.shift offset).insertInto (n + offset) (children.map (· + offset)) =
      (spot.insertInto n children).map (· + offset) := by
  cases spot with
  | firstIn => rfl
  | lastIn =>
    rw [insertInto, List.map_append]
    rfl
  | before s | after s =>
    rw [shift, insertInto, insertInto, List.flatMap_map, List.map_flatMap]
    refine List.flatMap_congr fun c _ => ?_
    simp only [Nat.add_right_cancel_iff]
    split <;> rfl

end Spot

namespace Document
variable (d other : Document) (spot : Spot) (n : NodeId)

theorem refusal?_graft : (d.graft other).refusal? (spot.shift d.fresh) (n + d.fresh) = other.refusal? spot n := by
  rw [refusal?, refusal?, Spot.parent?_shift, Spot.isNextTo_shift]
  cases spot.parent? other with
  | none => rfl
  | some p =>
    dsimp only [Option.map_some]
    rw [accepts, accepts, isWithin_graft, isLeaf, kind?_graft, ← isLeaf]
    simp only [Ne, Nat.add_right_cancel_iff]

theorem put_graft : (d.graft other).put (spot.shift d.fresh) (n + d.fresh) = d.graft (other.put spot n) := by
  rw [put, put, Spot.parent?_shift, Spot.isNextTo_shift]
  split
  · rfl
  cases spot.parent? other with
  | none => rfl
  | some p =>
    dsimp only [Option.map_some]
    rw [detach_graft]
    have hchildren := modify_graft d (other.detach n) p
      (fun node => { node with children := spot.insertInto n node.children })
      (fun node => { node with children := (spot.shift d.fresh).insertInto (n + d.fresh) node.children })
      fun node => by rw [Node.shift, Node.shift, Spot.insertInto_shift]
    rw [hchildren]
    exact setParent_graft d _ n (some p)

theorem tryPut_graft :
    (d.graft other).tryPut (spot.shift d.fresh) (n + d.fresh) = d.graft (other.tryPut spot n) := by
  rw [tryPut, tryPut, refusal?_graft, put_graft]
  split <;> rfl

theorem tryPutAll_graft (ns : List NodeId) :
    (d.graft other).tryPutAll (spot.shift d.fresh) (ns.map (· + d.fresh)) = d.graft (other.tryPutAll spot ns) :=
  foldl_graft (fun other n => tryPut_graft d other spot n) other ns

end Document

namespace Document

/-! Freeing. -/

theorem discard_of_not_isAllocated (hn : ¬ d.isAllocated n) : d.discard n = d := by
  have hnode : d.node? n = none := Option.not_isSome_iff_eq_none.1 hn
  have hchildren : d.children n = [] := by rw [children, hnode]; rfl
  have hfree : d.free n = d := by
    refine congrArg (Document.mk · d.roots) (Array.ext_getElem? fun m => ?_)
    rw [Array.getElem?_modify]
    split
    · rename_i heq
      subst heq
      rw [node?] at hnode
      rcases hslot : d.slots[n]? with - | - | node
      · rfl
      · rfl
      · simp [hslot] at hnode
    · rfl
  rw [discard, detach, parent?, hnode, subtree]
  cases d.slots.size with
  | zero => rfl
  | succ bound =>
    rw [subtreeOnto, hchildren]
    exact hfree

theorem subtreeOnto_graft (d other : Document) (bound : Nat) (n : NodeId) :
    (d.graft other).subtreeOnto bound (n + d.fresh) [] = (other.subtreeOnto bound n []).map (· + d.fresh) := by
  induction bound generalizing n with
  | zero => rfl
  | succ bound ih =>
    rw [subtreeOnto_succ, subtreeOnto_succ, children_graft, List.flatMap_map, List.map_cons, List.map_flatMap]
    exact congrArg _ (List.flatMap_congr fun c _ => ih c)

namespace WellFormed
variable (h : other.WellFormed) (hpos : 0 < other.fresh)
include h hpos

theorem subtree_graft (d : Document) (n : NodeId) :
    (d.graft other).subtree (n + d.fresh) = (other.subtree n).map (· + d.fresh) := by
  have hbound : other.fresh ≤ (d.graft other).fresh + (other.ancestors n).length := by
    rw [fresh_graft, Nat.add_assoc]
    exact Nat.le_add_right ..
  rw [subtree, subtreeOnto_graft]
  exact congrArg (List.map _) (h.subtreeOnto_eq hpos hbound)

theorem discard_graft (d : Document) (n : NodeId) :
    (d.graft other).discard (n + d.fresh) = d.graft (other.discard n) := by
  rw [Document.discard, Document.discard, h.subtree_graft hpos, detach_graft]
  exact foldl_graft (fun other n => free_graft d other n) _ _

theorem foldl_discard_graft (d : Document) (ns : List NodeId) :
    (ns.map (· + d.fresh)).foldl Document.discard (d.graft other) =
      d.graft (ns.foldl Document.discard other) := by
  induction ns generalizing other with
  | nil => rfl
  | cons n ns ih =>
    have hrest : (other.discard n).WellFormed := by
      by_cases hn : other.isAllocated n
      · exact h.discard hn
      · rwa [discard_of_not_isAllocated hn]
    rw [List.map_cons, List.foldl_cons, List.foldl_cons, h.discard_graft hpos]
    exact ih hrest ((fresh_discard other n).symm ▸ hpos)

theorem discardIfDrained_graft (d : Document) (n : NodeId) :
    (d.graft other).discardIfDrained (n + d.fresh) = d.graft (other.discardIfDrained n) := by
  rw [Document.discardIfDrained, Document.discardIfDrained, isFragment, kind?_graft, ← isFragment,
    children_graft, List.isEmpty_map, h.discard_graft hpos]
  split <;> rfl

end WellFormed
end Document
end DomQuery
