import DomQuery.Proofs.Document.Placement
import DomQuery.Proofs.Document.Wrapping

/-!
Fragments that hold no one up. A fragment carries the nodes that belong to no element yet; as long as
it stands in no other node, only elements stand between a node and an element above it. Whatever is done
with other nodes leaves it there: a copy of a node that is no fragment has none in it, and a step that
puts no fragment anywhere gives none a parent.
-/
namespace DomQuery

/-- No node of the tree is a fragment. -/
inductive Tree.Plain : Tree → Prop
  | node {kind : Kind} {ns : Namespace} {children : List Tree} :
    ¬ kind.isFragment → (∀ t ∈ children, Plain t) → Plain (.node kind ns children)

namespace Document
variable {d d' d'' other : Document} {n m p a template wrapper : NodeId} {spot : Spot} {way : Place}
  {ns originals targets : List NodeId}

/-- No fragment has a parent. -/
def FragmentsOnTop (d : Document) : Prop := ∀ n, d.isFragment n → d.parent? n = none

instance : Decidable d.FragmentsOnTop :=
  decidable_of_iff (∀ n < d.slots.size, d.isFragment n → d.parent? n = none) <| by
    refine ⟨fun h n hn => ?_, fun h n _ => h n⟩
    cases hp : d.parent? n with
    | none => rfl
    | some p => exact hp.symm.trans (h n (lt_size_of_parent? hp) hn)

theorem FragmentsOnTop.not_isFragment (h : d.FragmentsOnTop) (hp : d.parent? n = some p) :
    ¬ d.isFragment n := by
  intro hn
  cases (h n hn).symm.trans hp

theorem FragmentsOnTop.not_isFragment_of_isWithin (h : d.FragmentsOnTop) (hn : d.isWithin n a) :
    ¬ d.isFragment n := by
  obtain ⟨p, hp⟩ := exists_parent?_of_isWithin hn
  exact h.not_isFragment hp

/-- No fragment has come up, and none that had no parent has got one. -/
structure Spares (d d' : Document) : Prop where
  isFragment : ∀ n, d'.isFragment n → d.isFragment n
  parent? : ∀ n, d'.isFragment n → d.parent? n = none → d'.parent? n = none

theorem FragmentsOnTop.of_spares (h : d.FragmentsOnTop) (hd : d.Spares d') : d'.FragmentsOnTop :=
  fun n hn => hd.parent? n hn (h n (hd.isFragment n hn))

namespace Spares

theorem refl (d : Document) : d.Spares d := ⟨fun _ => id, fun _ _ => id⟩

theorem trans (h : d.Spares d') (h' : d'.Spares d'') : d.Spares d'' where
  isFragment n hn := h.isFragment n (h'.isFragment n hn)
  parent? n hn hp := h'.parent? n hn (h.parent? n (h'.isFragment n hn) hp)

theorem of_data? (hdata : ∀ m, d'.data? m = d.data? m)
    (hparent : ∀ m, d.isFragment m → d.parent? m = none → d'.parent? m = none) : d.Spares d' where
  isFragment m hm := by rwa [← isFragment_congr (hdata m)]
  parent? m hm hp := hparent m (by rwa [← isFragment_congr (hdata m)]) hp

theorem of_grows (h : d.Grows d') (hnew : ∀ n, d'.isFragment n → d.isFragment n) : d.Spares d' where
  isFragment := hnew
  parent? n hn hp := by rwa [h.parent?_of_lt (lt_fresh (isAllocated_of_isFragment (hnew n hn)))]

theorem not_isFragment (h : d.Spares d') (hn : ¬ d.isFragment n) : ¬ d'.isFragment n :=
  mt (h.isFragment n) hn

theorem not_isFragment_of_le (h : d.Spares d') (hn : d.fresh ≤ n) : ¬ d'.isFragment n :=
  h.not_isFragment fun hold => Nat.not_lt_of_le hn (lt_fresh (isAllocated_of_isFragment hold))

theorem adoptTopLevel (h : d.Spares d') (ns : List NodeId) : d.Spares (d'.adoptTopLevel ns) :=
  ⟨h.isFragment, h.parent?⟩

theorem foldl {α : Type} {f : Document → α → Document} {xs : List α}
    (hf : ∀ d', d.Spares d' → ∀ x ∈ xs, d'.Spares (f d' x)) : d.Spares (xs.foldl f d) :=
  List.foldlRecOn xs f (.refl d) fun d' hd' x hx => hd'.trans (hf d' hd' x hx)

end Spares

/-! Taking out and putting in. -/

theorem spares_detach (d : Document) (n : NodeId) : d.Spares (d.detach n) := by
  refine .of_data? (data?_detach d n) fun m _ hm => ?_
  rw [parent?_detach, hm, ite_self]

theorem spares_foldl_detach (d : Document) (ns : List NodeId) : d.Spares (ns.foldl detach d) :=
  .foldl fun d' _ n _ => spares_detach d' n

theorem spares_clearChildren (d : Document) (n : NodeId) : d.Spares (d.clearChildren n) :=
  spares_foldl_detach d (d.children n)

theorem parent?_put_of_ne (d : Document) (spot : Spot) (hm : m ≠ n) :
    (d.put spot n).parent? m = d.parent? m := by
  have hother (d : Document) (f : Node → Node) : (d.modify n f).parent? m = d.parent? m := by
    rw [parent?, parent?, node?_modify, if_neg hm]
  rw [put]
  split
  · rfl
  split
  · rfl
  · rw [hother, parent?_modify, parent?_detach, if_neg hm]
    exact fun _ => rfl

theorem spares_put (spot : Spot) (hn : ¬ d.isFragment n) : d.Spares (d.put spot n) := by
  refine .of_data? (data?_put d spot n) fun m hm hp => ?_
  rw [parent?_put_of_ne d spot fun heq : m = n => hn (heq ▸ hm), hp]

theorem spares_tryPut (spot : Spot) (hn : ¬ d.isFragment n) : d.Spares (d.tryPut spot n) := by
  rw [tryPut]
  split
  · exact .refl d
  · exact spares_put spot hn

theorem spares_tryPutAll (spot : Spot) (hns : ∀ n ∈ ns, ¬ d.isFragment n) :
    d.Spares (d.tryPutAll spot ns) :=
  .foldl fun _ hd' n hn => spares_tryPut spot (hd'.not_isFragment (hns n hn))

theorem spares_placeFrom (spot : Spot) (hns : ∀ n ∈ ns, ¬ d.isFragment n) :
    d.Spares (d.placeFrom way p spot ns).1 := by
  induction ns generalizing d spot with
  | nil => exact .refl d
  | cons n ns ih =>
    obtain ⟨hn, hns⟩ := List.forall_mem_cons.1 hns
    rw [placeFrom]
    split
    · exact ih spot hns
    · have hput := spares_put spot hn
      exact hput.trans (ih _ fun m hm => hput.not_isFragment (hns m hm))

/-! Taking away. -/

theorem spares_discard (d : Document) (n : NodeId) : d.Spares (d.discard n) := by
  have hnode (m : NodeId) : (d.discard n).node? m = none ∨ (d.discard n).node? m = (d.detach n).node? m := by
    rw [discard, node?_foldl_free]
    split
    · exact .inl rfl
    · exact .inr rfl
  have hrest : (d.detach n).Spares (d.discard n) := by
    refine ⟨fun m hm => ?_, fun m _ hp => ?_⟩
    · rcases hnode m with hgone | hsame
      · rw [isFragment, kind?, hgone] at hm
        cases hm
      · rwa [isFragment, kind?, hsame] at hm
    · rcases hnode m with hgone | hsame
      · rw [parent?, hgone]
        rfl
      · rwa [parent?, hsame]
  exact (spares_detach d n).trans hrest

theorem spares_discardScratch (d : Document) (c : Option NodeId) : d.Spares (d.discardScratch c) := by
  cases c with
  | none => exact .refl d
  | some c => exact spares_discard d c

theorem spares_discardIfDrained (d : Document) (n : NodeId) : d.Spares (d.discardIfDrained n) := by
  rw [discardIfDrained]
  split
  · exact spares_discard d n
  · exact .refl d

/-! Data. -/

theorem isFragment_modify (d : Document) (n : NodeId) (f : Node → Node) (m : NodeId) :
    (d.modify n f).isFragment m =
      if m = n then (d.node? n).any fun node => (f node).kind.isFragment else d.isFragment m := by
  rw [isFragment, isFragment, kind?, kind?, node?_modify]
  split
  · rw [Option.map_map, Option.any_map]
    rfl
  · rfl

theorem spares_modify {f : Node → Node} (hparent : ∀ node, (f node).parent = node.parent)
    (hkind : ∀ node, d.node? n = some node → (f node).kind.isFragment → node.kind.isFragment) :
    d.Spares (d.modify n f) := by
  refine ⟨fun m hm => ?_, fun m _ hp => (parent?_modify hparent).trans hp⟩
  rw [isFragment_modify] at hm
  split at hm
  · rename_i heq
    obtain ⟨node, hnode, hm⟩ := (Option.any_eq_true _ _).1 hm
    rw [heq, isFragment, kind?, hnode]
    exact hkind node hnode hm
  · exact hm

/-! New nodes. -/

theorem isFragment_add (d : Document) (node : Node) (m : NodeId) :
    (d.add node).isFragment m = if m = d.fresh then node.kind.isFragment else d.isFragment m := by
  rw [isFragment, isFragment, kind?, kind?, node?_add]
  split <;> rfl

theorem FragmentsOnTop.create (h : d.FragmentsOnTop) (kind : Kind) (space : Namespace) :
    (d.create kind space).1.FragmentsOnTop := by
  intro n hn
  rw [Document.create, isFragment_add] at hn
  rw [Document.create, parent?, node?_add]
  split
  · rfl
  · rename_i hne
    exact h n (by rwa [if_neg hne] at hn)

theorem spares_create (d : Document) {kind : Kind} (hkind : ¬ kind.isFragment) (space : Namespace) :
    d.Spares (d.create kind space).1 := by
  have hold (m : NodeId) (hm : (d.create kind space).1.isFragment m) : m ≠ d.fresh ∧ d.isFragment m := by
    rw [create, isFragment_add] at hm
    split at hm
    · exact absurd hm hkind
    · rename_i hne
      exact ⟨hne, hm⟩
  refine ⟨fun m hm => (hold m hm).2, fun m hm hp => ?_⟩
  rwa [create, parent?, node?_add, if_neg (hold m hm).1]

theorem isFragment_plantUnder (d : Document) (parent : Option NodeId) (kind : Kind) (space : Namespace)
    (children : List Tree) (m : NodeId) :
    (d.plantUnder parent (.node kind space children)).1.isFragment m =
      ((d.add { kind, ns := space, parent }).plantAllUnder d.fresh children).1.isFragment m := by
  rw [plantUnder]
  exact isFragment_congr (data?_modify fun _ => ⟨rfl, rfl⟩)

mutual

theorem isFragment_of_plantUnder (d : Document) (parent : Option NodeId) :
    ∀ {tree : Tree}, tree.Plain → ∀ m, (d.plantUnder parent tree).1.isFragment m → d.isFragment m
  | .node kind space children, .node hkind hchildren, m, hm => by
    rw [isFragment_plantUnder] at hm
    have hm := isFragment_of_plantAllUnder _ d.fresh hchildren m hm
    rw [isFragment_add] at hm
    split at hm
    · exact absurd hm hkind
    · exact hm

theorem isFragment_of_plantAllUnder (d : Document) (parent : NodeId) :
    ∀ {trees : List Tree}, (∀ t ∈ trees, t.Plain) →
      ∀ m, (d.plantAllUnder parent trees).1.isFragment m → d.isFragment m
  | [], _, m, hm => by rwa [plantAllUnder] at hm
  | tree :: trees, hplain, m, hm => by
    have hrest (t : Tree) (ht : t ∈ trees) : t.Plain := hplain t (List.mem_cons_of_mem tree ht)
    rw [plantAllUnder] at hm
    exact isFragment_of_plantUnder d (some parent) (hplain tree List.mem_cons_self) m
      (isFragment_of_plantAllUnder _ parent hrest m hm)

end

/-! Copies, in the same document or in another. -/

theorem isFragment_getD_kind? (hn : d.isAllocated n) :
    ((d.kind? n).getD .fragment).isFragment = d.isFragment n := by
  obtain ⟨node, hnode⟩ := Option.isSome_iff_exists.1 hn
  rw [isFragment, kind?, hnode]
  rfl

section Reading
variable (hother : other.WellFormed) (htop : other.FragmentsOnTop)
include hother htop

/-- What is read below a node has no fragments in it; the walk down ends before its bound. -/
theorem WellFormed.plain_children {bound : Nat}
    (hbound : other.slots.size ≤ bound + 1 + (other.ancestors n).length) :
    ∀ t ∈ (other.children n).map (other.treeWithin bound), t.Plain := by
  induction n using hother.descend generalizing bound with
  | step n ih =>
    intro t ht
    obtain ⟨c, hc, rfl⟩ := List.mem_map.1 ht
    have hparent := hother.parent?_eq_some_iff.2 hc
    have hlen := hother.length_ancestors_of_mem_children hc
    have hdepth := hother.length_ancestors_lt (n := c) (Nat.zero_lt_of_lt (lt_size_of_parent? hparent))
    obtain ⟨bound, rfl⟩ : ∃ k, bound = k + 1 := Nat.exists_eq_add_one.2 (by omega)
    refine .node ?_ (ih c hc (by omega))
    rw [isFragment_getD_kind? (hother.isAllocated_child hc)]
    exact htop.not_isFragment hparent

variable (hn : other.isAllocated n)
include hn

theorem WellFormed.isFragment_of_importNode (d : Document) (m : NodeId)
    (hm : (d.importNode other n).1.isFragment m) : d.isFragment m ∨ m = d.fresh ∧ other.isFragment n := by
  obtain ⟨bound, hbound⟩ := Nat.exists_eq_add_one.2 (Nat.zero_lt_of_lt (lt_fresh hn))
  have hchildren := hother.plain_children htop (n := n)
    (hbound.le.trans (Nat.le_add_right ..))
  rw [importNode, plant, treeAt, ← fresh, hbound, treeWithin, isFragment_plantUnder] at hm
  have hm := isFragment_of_plantAllUnder _ d.fresh hchildren m hm
  rw [isFragment_add, isFragment_getD_kind? hn] at hm
  split at hm
  · rename_i heq
    exact .inr ⟨heq, hm⟩
  · exact .inl hm

theorem WellFormed.spares_importNode (h : d.WellFormed) (hkind : ¬ other.isFragment n) :
    d.Spares (d.importNode other n).1 :=
  .of_grows (h.adds_importNode hother n).grows fun m hm =>
    (hother.isFragment_of_importNode htop hn d m hm).resolve_right fun hroot => hkind hroot.2

theorem WellFormed.fragmentsOnTop_importNode (hd : d.FragmentsOnTop) (h : d.WellFormed) :
    (d.importNode other n).1.FragmentsOnTop := by
  have hplanted := planted_plantUnder d none (hother.tidy_treeAt n)
  intro m hm
  rcases hother.isFragment_of_importNode htop hn d m hm with hold | ⟨rfl, -⟩
  · have hsame := (hplanted.grows h).parent?_of_lt (lt_fresh (isAllocated_of_isFragment hold))
    exact hsame.trans (hd m hold)
  · have hroot : (d.plantUnder none (other.treeAt n)).2 = d.fresh := by
      cases other.treeAt n
      rfl
    exact (hplanted.of_mem d.fresh (List.mem_singleton.2 hroot.symm)).2.2

end Reading

section Copying
variable (h : d.WellFormed) (htop : d.FragmentsOnTop)
include h htop

theorem WellFormed.fragmentsOnTop_copy (hn : d.isAllocated n) (deep : Bool) :
    (d.copy n deep).1.FragmentsOnTop := by
  rw [Document.copy]
  split
  · exact h.fragmentsOnTop_importNode htop hn htop h
  · exact htop.create _ _

theorem WellFormed.spares_copy (hn : d.isAllocated n) (hkind : ¬ d.isFragment n) :
    d.Spares (d.copy n true).1 := h.spares_importNode htop hn h hkind

theorem WellFormed.spares_copyAll (hns : ∀ n ∈ ns, d.isAllocated n ∧ ¬ d.isFragment n) :
    d.Spares (d.copyAll ns).1 := by
  induction ns generalizing d with
  | nil => exact .refl d
  | cons n ns ih =>
    obtain ⟨⟨hn, hkind⟩, hns⟩ := List.forall_mem_cons.1 hns
    have hadds := h.adds_copy n true
    have hcopy := h.spares_copy htop hn hkind
    exact hcopy.trans (ih hadds.wellFormed (htop.of_spares hcopy) fun m hm =>
      (hns m hm).imp hadds.grows.toExtends.isAllocated hcopy.not_isFragment)

theorem WellFormed.fragmentsOnTop_copyAll (hns : ∀ n ∈ ns, d.isAllocated n) :
    (d.copyAll ns).1.FragmentsOnTop := by
  induction ns generalizing d with
  | nil => exact htop
  | cons n ns ih =>
    obtain ⟨hn, hns⟩ := List.forall_mem_cons.1 hns
    have hadds := h.adds_copy n true
    exact ih hadds.wellFormed (h.fragmentsOnTop_copy htop hn true) fun m hm =>
      hadds.grows.toExtends.isAllocated (hns m hm)

/-! Handing out. -/

omit htop in
theorem WellFormed.spares_place (way : Place) (hns : ∀ n ∈ ns, d.isAllocated n ∧ ¬ d.isFragment n)
    (hp : d.isAllocated p) : (d.place way p ns).1.WellFormed ∧ d.Keeps (d.place way p ns).1 ∧
      d.Spares (d.place way p ns).1 := by
  obtain ⟨hmoves, -⟩ := h.place (S := fun _ => False) (M := fun _ => True) way (fun _ _ _ => id)
    (fun n hn => ⟨(hns n hn).1, trivial⟩) ⟨hp, id⟩
  refine ⟨hmoves.wellFormed, fun n x hx => ?_, spares_placeFrom _ fun n hn => (hns n hn).2⟩
  rw [hmoves.data? n (lt_fresh (isAllocated_iff.2 ⟨x, hx⟩)), hx]

theorem WellFormed.spares_placeCopies (way : Place)
    (horiginals : ∀ n ∈ originals, d.isAllocated n ∧ ¬ d.isFragment n)
    (htargets : ∀ t ∈ targets, d.isAllocated t) : d.Spares (d.placeCopies way originals targets).1 := by
  induction targets generalizing d with
  | nil => exact .refl d
  | cons t targets ih =>
    obtain ⟨ht, htargets⟩ := List.forall_mem_cons.1 htargets
    have hadds := h.adds_copyAll originals
    have hmore := hadds.grows.toExtends
    have hcopy := h.spares_copyAll htop horiginals
    obtain ⟨hform, hkeeps, hplace⟩ := hadds.wellFormed.spares_place way (fun n hn =>
      (hadds.of_mem n hn).symm.imp_right hcopy.not_isFragment_of_le) (hmore.isAllocated ht)
    have hboth := hcopy.trans hplace
    rw [Document.placeCopies]
    refine hboth.trans (ih hform (htop.of_spares hboth) (fun n hn => ?_) fun m hm => ?_)
    · exact (horiginals n hn).imp (hkeeps.isAllocated ∘ hmore.isAllocated) hboth.not_isFragment
    · exact hkeeps.isAllocated (hmore.isAllocated (htargets m hm))

theorem WellFormed.spares_distribute (way : Place)
    (horiginals : ∀ n ∈ originals, d.isAllocated n ∧ ¬ d.isFragment n)
    (htargets : ∀ t ∈ targets, d.isAllocated t) : d.Spares (d.distribute way targets originals).1 := by
  cases targets with
  | nil => exact .refl d
  | cons first rest =>
    obtain ⟨hfirst, hrest⟩ := List.forall_mem_cons.1 htargets
    obtain ⟨hform, hkeeps, hplace⟩ := h.spares_place way horiginals hfirst
    have hcopies := hform.spares_placeCopies (htop.of_spares hplace) way
      (fun n hn => (horiginals n hn).imp hkeeps.isAllocated hplace.not_isFragment)
      fun t ht => hkeeps.isAllocated (hrest t ht)
    have hboth := hplace.trans hcopies
    simp only [Document.distribute]
    split
    · exact hboth.adoptTopLevel _
    · exact hboth

end Copying

/-! Wrapping. -/

theorem spares_wrapAt (hwrapper : ¬ d.isFragment wrapper) (hns : ∀ n ∈ ns, ¬ d.isFragment n)
    (first : NodeId) : d.Spares (d.wrapAt wrapper first ns) := by
  rw [wrapAt]
  split
  · exact spares_discard d wrapper
  · have hput : d.Spares (if (d.parent? first).isSome then d.put (.before first) wrapper else d) := by
      split
      · exact spares_put _ hwrapper
      · exact .refl d
    exact (hput.trans (spares_tryPutAll _ fun n hn => hput.not_isFragment (hns n hn))).adoptTopLevel _

section Wrapping
variable (h : d.WellFormed) (htop : d.FragmentsOnTop) (htemplate : d.isElement template)
include h htop htemplate

theorem WellFormed.spares_wrapper : d.Spares (d.copy template true).1 ∧
    ¬ (d.copy template true).1.isFragment (d.copy template true).2 := by
  have hcopy := h.spares_copy htop (isAllocated_of_isElement htemplate)
    (not_isFragment_of_isElement htemplate)
  obtain ⟨hle, -⟩ := (h.adds_copy template true).of_mem _ List.mem_cons_self
  exact ⟨hcopy, hcopy.not_isFragment_of_le hle⟩

theorem WellFormed.spares_wrapCopy (hns : ∀ n ∈ ns, ¬ d.isFragment n) (first : NodeId) :
    d.Spares ((d.copy template true).1.wrapAt (d.copy template true).2 first ns) := by
  obtain ⟨hcopy, hwrapper⟩ := h.spares_wrapper htop htemplate
  exact hcopy.trans (spares_wrapAt hwrapper (fun n hn => hcopy.not_isFragment (hns n hn)) first)

theorem WellFormed.spares_wrapChildren (n : NodeId) : d.Spares (d.wrapChildren template n) := by
  obtain ⟨hcopy, hwrapper⟩ := h.spares_wrapper htop htemplate
  have hform := (h.adds_copy template true).wellFormed
  have hput := spares_put (.lastIn n) hwrapper
  rw [Document.wrapChildren]
  dsimp only
  split
  · exact hcopy.trans (spares_discard _ _)
  · refine hcopy.trans (hput.trans (spares_tryPutAll _ fun m hm => hput.not_isFragment ?_))
    exact (htop.of_spares hcopy).not_isFragment (hform.parent?_eq_some_iff.2 hm)

theorem WellFormed.spares_foldl {f : Document → NodeId → Document}
    (hns : ∀ n ∈ ns, d.isAllocated n)
    (hmoves : ∀ {d : Document} {n : NodeId}, d.WellFormed → d.isAllocated n →
      d.Moves (fun _ => False) (¬ (fun _ => False) ·) (f d n))
    (hf : ∀ d', d.Spares d' → d'.WellFormed → d'.FragmentsOnTop → d'.isElement template →
      ∀ n ∈ ns, d'.Spares (f d' n)) : d.Spares (ns.foldl f d) := by
  induction ns generalizing d with
  | nil => exact .refl d
  | cons n ns ih =>
    obtain ⟨hn, hns⟩ := List.forall_mem_cons.1 hns
    have hstep := hmoves h hn
    have hspares := hf d (.refl d) h htop htemplate n List.mem_cons_self
    have hsame := isElement_congr (hstep.data? template (lt_fresh (isAllocated_of_isElement htemplate)))
    refine hspares.trans (ih hstep.wellFormed (htop.of_spares hspares) (hsame.trans htemplate)
      (fun m hm => hstep.isAllocated (hns m hm)) fun d' hd' hform hfragments helement m hm => ?_)
    exact hf d' (hspares.trans hd') hform hfragments helement m (List.mem_cons_of_mem n hm)

theorem WellFormed.spares_wrapEach (hns : ∀ n ∈ ns, d.isAllocated n ∧ ¬ d.isFragment n) :
    d.Spares (d.wrapEach template ns) := by
  refine h.spares_foldl htop htemplate (fun n hn => (hns n hn).1) (fun {d n} h hn => ?_)
    fun d' hd' hform hfragments helement n hn => ?_
  · refine (h.adds_copy template true).moves_wrapAt h (fun _ => False.elim) (fun _ _ _ => Iff.rfl)
      ⟨hn, id⟩ fun m hm => ?_
    rw [List.mem_singleton.1 hm]
    exact ⟨hn, id⟩
  · refine hform.spares_wrapCopy hfragments helement (fun m hm => ?_) n
    rw [List.mem_singleton.1 hm]
    exact hd'.not_isFragment (hns n hn).2

theorem WellFormed.spares_wrapTogether (hns : ∀ n ∈ ns, ¬ d.isFragment n) :
    d.Spares (d.wrapTogether template ns) := by
  cases ns with
  | nil => exact .refl d
  | cons first rest => exact h.spares_wrapCopy htop htemplate hns first

theorem WellFormed.spares_wrapInside (hns : ∀ n ∈ ns, d.isAllocated n) :
    d.Spares (d.wrapInside template ns) :=
  h.spares_foldl htop htemplate hns
    (fun h hn => h.wrapChildren (fun _ => False.elim) (fun _ _ _ => Iff.rfl) template ⟨hn, id⟩)
    fun _ _ hform hfragments helement n _ => hform.spares_wrapChildren hfragments helement n

end Wrapping
end Document
end DomQuery
