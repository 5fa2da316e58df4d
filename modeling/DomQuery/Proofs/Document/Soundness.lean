import DomQuery.Operation
import DomQuery.Proofs.Document.Placement
import DomQuery.Proofs.Document.Wrapping
import DomQuery.Proofs.Markup.Forest
import DomQuery.Proofs.Result

/-!
Sound documents. Every operation on a document leaves it well formed, with its roots among its nodes,
and takes no node away.
-/
namespace DomQuery
namespace Document
variable {d d' d'' : Document} {E E' S M : NodeId → Prop} {n m p c : NodeId} {ns : List NodeId}

/-- A well-formed document whose roots are nodes, each listed once. -/
structure Sound (d : Document) : Prop extends WellFormed d where
  nodup_roots : d.roots.Nodup
  isAllocated_of_mem_roots : ∀ r ∈ d.roots, d.isAllocated r

/-- The document is sound and has all nodes that it had. What they are has changed for nodes of `E`
only. -/
structure Evolves (E : NodeId → Prop) (d d' : Document) : Prop where
  sound : d'.Sound
  isAllocated : ∀ n, d.isAllocated n → d'.isAllocated n
  data? : ∀ n, d.isAllocated n → ¬ E n → d'.data? n = d.data? n

theorem Evolves.trans (h : d.Evolves E d') (h' : d'.Evolves E d'') : d.Evolves E d'' where
  sound := h'.sound
  isAllocated n hn := h'.isAllocated n (h.isAllocated n hn)
  data? n hn hE := (h'.data? n (h.isAllocated n hn) hE).trans (h.data? n hn hE)

theorem Evolves.mono (h : d.Evolves E d') (hE : ∀ n, d.isAllocated n → E n → E' n) :
    d.Evolves E' d' where
  sound := h.sound
  isAllocated := h.isAllocated
  data? n hn hE' := h.data? n hn fun hn' => hE' (hE n hn hn')

theorem Evolves.discard (h : d.Evolves E d') (hc : d'.isAllocated c)
    (hold : ∀ m, d.isAllocated m → ¬ d'.LiesIn m c) (hroots : ∀ r ∈ d'.roots, ¬ d'.LiesIn r c) :
    d.Evolves E (d'.discard c) := by
  have hd := h.sound.toWellFormed
  have hmem (m : NodeId) : (d'.discard c).isAllocated m ↔ d'.isAllocated m ∧ ¬ d'.LiesIn m c :=
    hd.isAllocated_discard hc m
  refine ⟨⟨hd.discard hc, ?_, fun r hr => ?_⟩, fun m hm => ?_, fun m hm hE => ?_⟩
  · rw [roots_discard]
    exact h.sound.nodup_roots
  · rw [roots_discard] at hr
    exact (hmem r).2 ⟨h.sound.isAllocated_of_mem_roots r hr, hroots r hr⟩
  · exact (hmem m).2 ⟨h.isAllocated m hm, hold m hm⟩
  · rw [hd.data?_discard hc (hold m hm), h.data? m hm hE]

theorem WellFormed.put_create (h : d.WellFormed) (hn : d.isAllocated n) (hleaf : ¬ d.isLeaf n)
    (kind : Kind) (space : Namespace) :
    ((d.create kind space).1.put (.lastIn n) (d.create kind space).2).WellFormed ∧
      d.Extends ((d.create kind space).1.put (.lastIn n) (d.create kind space).2) := by
  have hadds := h.adds_create kind space
  obtain ⟨hle, hnew⟩ := hadds.of_mem _ List.mem_cons_self
  have hmore := hadds.grows.toExtends
  have haccepted : (d.create kind space).1.refusal? (.lastIn n) (d.create kind space).2 = none := by
    refine refusal?_eq_none_iff.2 ⟨n, rfl, .inr (accepts_iff.2 ⟨?_, fun hlies => ?_⟩)⟩
    · rwa [hmore.isLeaf_iff hn]
    · exact Nat.not_lt_of_le (hadds.grows.le_of_liesIn hlies hle) (lt_fresh hn)
  exact ⟨hadds.wellFormed.put hnew (show Has _ (.lastIn n) from hmore.isAllocated hn) haccepted,
    hmore.trans (extends_put ..)⟩

theorem Adds.split {read : Document} (hadds : d.Adds read ns) :
    read.Split fun n => d.fresh ≤ n ∧ n < read.fresh := by
  intro n p hp
  have hn := lt_fresh (isAllocated_of_parent? hp)
  have hp' := lt_fresh (hadds.wellFormed.isAllocated_parent hp)
  exact and_congr (hadds.grows.apart n p hp) (iff_of_true hn hp')

theorem Adds.moves_distribute {read : Document} {targets : List NodeId} (hadds : d.Adds read ns)
    (way : Place) (htargets : ∀ t ∈ targets, d.isAllocated t) :
    read.Moves (fun n => d.fresh ≤ n ∧ n < read.fresh) (fun n => n ∈ ns ∨ read.fresh ≤ n)
        (read.distribute way targets ns).1 ∧
      ∀ n ∈ (read.distribute way targets ns).2, (read.distribute way targets ns).1.isAllocated n ∧
        (read.distribute way targets ns).1.Free (fun n => d.fresh ≤ n ∧ n < read.fresh) n := by
  refine hadds.wellFormed.distribute (fun n hn => hn.2) (fun n hn => .inr hn) way
    hadds.split.sealed (fun n hn => ⟨(hadds.of_mem n hn).2, .inl hn⟩) fun t ht => ?_
  have ht := htargets t ht
  exact ⟨hadds.grows.toExtends.isAllocated ht, fun hin => Nat.not_lt_of_le hin.1 (lt_fresh ht)⟩

/-- The fragment that markup was read into stands apart from what is old and from what has been taken
out of it, however its content moves. -/
theorem Adds.apart_scratch {read : Document} (hadds : d.Adds read ns)
    (hcontainer : read.isAllocated d.fresh)
    (hmoves : read.Moves (fun n => d.fresh ≤ n ∧ n < read.fresh) M d')
    (hM : ∀ x, read.LiesIn d.fresh x → ¬ M x)
    (hfree : d'.Free (fun n => d.fresh ≤ n ∧ n < read.fresh) n) :
    ¬ d'.LiesIn n d.fresh ∧ ¬ d'.LiesIn d.fresh n := by
  have hsplit := hadds.split
  have hin : d.fresh ≤ d.fresh ∧ d.fresh < read.fresh := ⟨Nat.le_refl _, lt_fresh hcontainer⟩
  -- nothing above the fragment has moved
  have habove (x : NodeId) (hx : d'.LiesIn d.fresh x) :
      read.LiesIn d.fresh x ∧ d.fresh ≤ x ∧ x < read.fresh := by
    induction liesIn_iff.1 hx with
    | refl => exact ⟨.inl rfl, hin⟩
    | @tail a b hreach hstep ih =>
      obtain ⟨hlies, hset⟩ := ih (liesIn_iff.2 hreach)
      rcases hmoves.parent? a with hsame | ⟨hmoved, -⟩
      · have hparent := hsame.symm.trans hstep
        exact ⟨hlies.trans (.inr (isWithin_of_parent? hparent)), (hsplit a b hparent).1 hset⟩
      · exact absurd hmoved (hM a hlies)
  have htop (q : NodeId) (hq : d'.parent? d.fresh = some q) : d.fresh ≤ q ∧ q < read.fresh :=
    (habove q (.inr (isWithin_of_parent? hq))).2
  refine ⟨hfree.not_liesIn (hmoves.sealed hsplit.sealed) hin htop, fun hlies => ?_⟩
  obtain ⟨hlies', hset⟩ := habove n hlies
  rcases hfree with hout | ⟨p, hp, hout⟩
  · exact hout hset
  · exact hout (habove p (hlies.trans (.inr (isWithin_of_parent? hp)))).2

theorem Adds.not_given_of_above {read : Document} (hadds : d.Adds read ns)
    (hscratch : ∀ n ∈ ns, read.parent? n = some d.fresh) (hne : ns ≠ [])
    (hn : read.LiesIn d.fresh n) : ¬ (n ∈ ns ∨ read.fresh ≤ n) := by
  obtain ⟨m, hm⟩ := List.exists_mem_of_ne_nil ns hne
  have hcontainer := hadds.wellFormed.isAllocated_parent (hscratch m hm)
  rintro (hmem | hlater)
  · exact hadds.wellFormed.not_isWithin_self n ((isWithin_iff_of_parent? (hscratch n hmem)).2 hn)
  · rcases hn with rfl | hwithin
    · exact Nat.not_lt_of_le hlater (lt_fresh hcontainer)
    · exact Nat.not_lt_of_le hlater (hadds.wellFormed.lt_size_of_isWithin hwithin)

/-- The nodes that were read, and their fragment, are no nodes of the document any more. -/
def Forgets (d read d' : Document) : Prop := ∀ m, read.LiesIn m d.fresh → ¬ d'.isAllocated m

theorem Adds.sameBut_discardScratch {read : Document} (hadds : d.Adds read ns)
    (hscratch : ∀ n ∈ ns, read.parent? n = some d.fresh) (hne : ns ≠ [])
    (hmoves : read.Moves (fun n => d.fresh ≤ n ∧ n < read.fresh)
      (fun n => ¬ (d.fresh ≤ n ∧ n < read.fresh)) d') :
    d'.SameBut (fun n => d.fresh ≤ n ∧ n < read.fresh) (d'.discardScratch (read.scratch? ns)) ∧
      d.Forgets read (d'.discardScratch (read.scratch? ns)) := by
  have hcontainer := hadds.isAllocated_scratch hscratch hne
  have hin : d.fresh ≤ d.fresh ∧ d.fresh < read.fresh := ⟨Nat.le_refl _, lt_fresh hcontainer⟩
  have hsplit := hmoves.split hadds.split
  have hkept := hmoves.isAllocated hcontainer
  rw [discardScratch_of_ne_nil hscratch hne]
  refine ⟨hmoves.wellFormed.sameBut_discard hkept (fun m hm => (hsplit.iff_of_liesIn hm).2 hin)
    fun p hp => (hsplit _ p hp).1 hin, fun m hm hallocated => ?_⟩
  refine ((hmoves.wellFormed.isAllocated_discard hkept m).1 hallocated).2 ?_
  -- nothing that was read has moved
  clear hallocated
  induction liesIn_iff.1 hm using Relation.ReflTransGen.head_induction_on with
  | refl => exact .inl rfl
  | @head a b hstep hreach ih =>
    have hab : read.LiesIn a d.fresh := liesIn_iff.2 (.head hstep hreach)
    rcases hmoves.parent? a with hsame | ⟨hout, -⟩
    · exact .trans (.inr (isWithin_of_parent? (hsame.trans hstep))) (ih (liesIn_iff.2 hreach))
    · exact absurd ((hadds.split.iff_of_liesIn hab).2 hin) hout

namespace Sound
variable (h : d.Sound)
include h

theorem evolves_self : d.Evolves E d := ⟨h, fun _ => id, fun _ _ _ => rfl⟩

theorem evolves_of_extends (hd : d'.WellFormed) (hmore : d.Extends d') : d.Evolves E d' where
  sound :=
    { toWellFormed := hd
      nodup_roots := by
        rw [hmore.roots]
        exact h.nodup_roots
      isAllocated_of_mem_roots := fun r hr => by
        rw [hmore.roots] at hr
        exact hmore.isAllocated (h.isAllocated_of_mem_roots r hr) }
  isAllocated _ := hmore.isAllocated
  data? _ hn _ := hmore.keeps.data? hn

theorem evolves_of_adds (hadds : d.Adds d' ns) : d.Evolves E d' :=
  h.evolves_of_extends hadds.wellFormed hadds.grows.toExtends

theorem evolves_of_moves (hmoves : d.Moves S M d') : d.Evolves E d' where
  sound :=
    { toWellFormed := hmoves.wellFormed
      nodup_roots := hmoves.nodup_roots h.nodup_roots
      isAllocated_of_mem_roots := fun r hr => (hmoves.of_mem_roots r hr).elim
        (fun hr => hmoves.isAllocated (h.isAllocated_of_mem_roots r hr)) And.left }
  isAllocated _ := hmoves.isAllocated
  data? n hn _ := hmoves.data? n (lt_fresh hn)

theorem evolves_foldl {α : Type} {xs : List α} {f : Document → α → Document}
    (hf : ∀ {d'}, d'.Sound → d.Evolves E d' → ∀ x ∈ xs, d'.Evolves E (f d' x)) :
    d.Evolves E (xs.foldl f d) := by
  refine List.foldlRecOn (motive := d.Evolves E) xs f h.evolves_self fun d' hd' x hx => ?_
  exact hd'.trans (hf hd'.sound hd' x hx)

/-- Nodes that were read may move out of the fragment that they stand in, to parents that are older
or younger; then it can be freed. -/
theorem evolves_discardScratch {read : Document} (hadds : d.Adds read ns)
    (hscratch : ∀ n ∈ ns, read.parent? n = some d.fresh)
    (hmoves : read.Moves (fun n => d.fresh ≤ n ∧ n < read.fresh) M d')
    (hM : ∀ n ∈ ns, ¬ M d.fresh) : d.Evolves E (d'.discardScratch (read.scratch? ns)) := by
  have hevolves : d.Evolves E d' :=
    (h.evolves_of_adds hadds).trans ((h.evolves_of_adds (E := E) hadds).sound.evolves_of_moves hmoves)
  by_cases hne : ns = []
  · subst hne
    exact hevolves
  obtain ⟨n, hn⟩ := List.exists_mem_of_ne_nil ns hne
  have hread := hadds.isAllocated_scratch hscratch hne
  rw [discardScratch_of_ne_nil hscratch hne]
  let S (m : NodeId) : Prop := d.fresh ≤ m ∧ m < read.fresh
  have hin : S d.fresh := ⟨Nat.le_refl _, lt_fresh hread⟩
  have hsplit : read.Split S := hadds.split
  have hsealed : d'.Sealed S := hmoves.sealed hsplit.sealed
  have htop (q : NodeId) (hq : d'.parent? d.fresh = some q) : S q := by
    rcases hmoves.parent? d.fresh with hsame | ⟨hmoved, -⟩
    · exact (hsplit d.fresh q (hsame.symm.trans hq)).1 hin
    · exact absurd hmoved (hM n hn)
  have hold (m : NodeId) (hm : d.isAllocated m) : ¬ d'.LiesIn m d.fresh := fun hlies =>
    Nat.not_lt_of_le (hsealed.of_liesIn hlies hin).1 (lt_fresh hm)
  refine hevolves.discard (hmoves.isAllocated hread) hold fun r hr => ?_
  rcases hmoves.of_mem_roots r hr with hr | ⟨-, hfree⟩
  · rw [hadds.grows.roots] at hr
    exact hold r (h.isAllocated_of_mem_roots r hr)
  · exact hfree.not_liesIn hsealed hin htop

theorem evolves_distribute_markup {read : Document} {way : Place} {targets : List NodeId}
    (hadds : d.Adds read ns) (hscratch : ∀ n ∈ ns, read.parent? n = some d.fresh)
    (htargets : ∀ t ∈ targets, d.isAllocated t) :
    d.Evolves E ((read.distribute way targets ns).1.discardScratch (read.scratch? ns)) := by
  refine h.evolves_discardScratch hadds hscratch (hadds.moves_distribute way htargets).1 fun n hn => ?_
  exact hadds.not_given_of_above hscratch (List.ne_nil_of_mem hn) (.inl rfl)

theorem evolves_distribute (way : Place) {targets : List NodeId} (hns : ∀ n ∈ ns, d.isAllocated n)
    (htargets : ∀ t ∈ targets, d.isAllocated t) :
    d.Evolves E (d.distribute way targets ns).1 ∧
      ∀ n ∈ (d.distribute way targets ns).2, (d.distribute way targets ns).1.isAllocated n := by
  obtain ⟨hmoves, hplaced⟩ := h.toWellFormed.distribute
    (S := fun _ => False) (M := fun _ => True) (fun _ => False.elim)
    (fun _ _ => trivial) way (fun _ _ _ => id) (fun n hn => ⟨hns n hn, trivial⟩)
    fun t ht => ⟨htargets t ht, id⟩
  exact ⟨h.evolves_of_moves hmoves, fun n hn => (hplaced n hn).1⟩

theorem evolves_wrap_markup {read : Document} (wrap : Document → Document)
    {nodes : List NodeId} (hadds : d.Adds read ns)
    (hscratch : ∀ n ∈ ns, read.parent? n = some d.fresh) (hnodes : ∀ n ∈ nodes, d.isAllocated n)
    (hwrap : ∀ S : NodeId → Prop, (∀ n, S n → n < read.fresh) → read.Split S →
      (∀ n ∈ nodes, read.isAllocated n ∧ ¬ S n) → read.Moves S (¬ S ·) (wrap read)) :
    d.Evolves E ((wrap read).discardScratch (read.scratch? ns)) := by
  refine h.evolves_discardScratch hadds hscratch (hwrap _ (fun n hn => hn.2) hadds.split
    fun n hn => ⟨hadds.grows.toExtends.isAllocated (hnodes n hn),
      fun hin => Nat.not_lt_of_le hin.1 (lt_fresh (hnodes n hn))⟩) fun n hn hout => hout ?_
  exact ⟨Nat.le_refl _, lt_fresh (hadds.wellFormed.isAllocated_parent (hscratch n hn))⟩

/-! Data. -/

theorem evolves_modify {f : Node → Node} (hparent : ∀ node, (f node).parent = node.parent)
    (hchildren : ∀ node, (f node).children = node.children)
    (hleaf : ∀ node, d.node? n = some node → (f node).kind.isLeaf → d.children n = []) :
    d.Evolves (· = n) (d.modify n f) where
  sound :=
    { toWellFormed := h.toWellFormed.modify hparent hchildren hleaf
      nodup_roots := h.nodup_roots
      isAllocated_of_mem_roots := fun r hr => by
        rw [isAllocated_modify]
        exact h.isAllocated_of_mem_roots r hr }
  isAllocated m hm := by rwa [isAllocated_modify]
  data? m _ hm := by rw [Document.data?, node?_modify, if_neg hm, Document.data?]

theorem evolves_modifyElement (n : NodeId) (f : Element → Element) :
    d.Evolves (· = n) (d.modifyElement n f) := by
  refine h.evolves_modify (fun node => ?_) (fun node => ?_) fun node hnode hleaf => ?_
  · split <;> rfl
  · split <;> rfl
  · refine h.children_of_isLeaf ?_
    rw [isLeaf, kind?, hnode]
    revert hleaf
    cases hkind : node.kind <;> simp [hkind, Kind.isLeaf]

theorem evolves_modify_leaf (hleaf : d.isLeaf n) (kind : Kind) :
    d.Evolves (fun m => m = n ∧ d.isLeaf m) (d.modify n fun node => { node with kind }) := by
  have hmodify : d.Evolves (· = n) (d.modify n fun node => { node with kind }) :=
    h.evolves_modify (fun _ => rfl) (fun _ => rfl) fun _ _ _ => h.children_of_isLeaf hleaf
  exact hmodify.mono fun m _ hm => ⟨hm, hm ▸ hleaf⟩

theorem evolves_setTextContent (hn : d.isAllocated n) (text : String) :
    d.Evolves (fun m => m = n ∧ d.isLeaf m) (d.setTextContent n text) := by
  rw [setTextContent]
  split
  · rename_i old hkind
    have hleaf : d.isLeaf n := by
      rw [isLeaf, hkind]
      rfl
    exact h.evolves_modify_leaf hleaf _
  · rename_i old hkind
    have hleaf : d.isLeaf n := by
      rw [isLeaf, hkind]
      rfl
    exact h.evolves_modify_leaf hleaf _
  · rename_i htext hcomment
    have hbare := h.toWellFormed.clearChildren n
    have hmore := extends_clearChildren d n
    split
    · exact h.evolves_of_extends hbare hmore
    · have hleaf : ¬ (d.clearChildren n).isLeaf n := by
        rw [hmore.isLeaf_iff hn]
        exact not_isLeaf htext hcomment
      obtain ⟨hfull, hmore'⟩ := hbare.put_create (hmore.isAllocated hn) hleaf (.text text) .html
      exact h.evolves_of_extends hfull (hmore.trans hmore')

/-! Roots. -/

theorem evolves_register (hns : ∀ n ∈ ns, d.isAllocated n) : d.Evolves E (d.register ns) where
  sound :=
    { toWellFormed := h.toWellFormed.of_same_slots rfl
      nodup_roots := nodup_roots_register h.nodup_roots ns
      isAllocated_of_mem_roots := fun r hr =>
        (mem_roots_of_register hr).elim (h.isAllocated_of_mem_roots r) (hns r) }
  isAllocated _ := id
  data? _ _ _ := rfl

theorem evolves_unregister (ns : List NodeId) : d.Evolves E (d.unregister ns) where
  sound :=
    { toWellFormed := h.toWellFormed.of_same_slots rfl
      nodup_roots := h.nodup_roots.filter _
      isAllocated_of_mem_roots := fun r hr => h.isAllocated_of_mem_roots r (List.mem_of_mem_filter hr) }
  isAllocated _ := id
  data? _ _ _ := rfl

theorem evolves_clearRoots : d.Evolves E d.clearRoots where
  sound :=
    { toWellFormed := h.toWellFormed.of_same_slots rfl
      nodup_roots := List.nodup_nil
      isAllocated_of_mem_roots := nofun }
  isAllocated _ := id
  data? _ _ _ := rfl

/-! Moves that a caller asks for. -/

theorem evolves_move {spot : Spot} (hspot : d.Has spot) (hn : d.isAllocated n)
    (hmove : d.move spot n = .ok d') : d.Evolves E d' := by
  rw [Document.move] at hmove
  split at hmove
  · cases hmove
  · rename_i haccepted
    cases hmove
    exact h.evolves_of_extends (h.toWellFormed.put hn hspot haccepted) (extends_put d spot n)

theorem evolves_insertBefore {reference : Option NodeId} (hp : d.isAllocated p)
    (hn : d.isAllocated n) (hmove : d.insertBefore p n reference = .ok d') : d.Evolves E d' := by
  cases reference with
  | none => exact h.evolves_move (show d.Has (.lastIn p) from hp) hn hmove
  | some s =>
    rw [insertBefore] at hmove
    split at hmove
    · rename_i hs
      exact h.evolves_move (show d.Has (.before s) from isAllocated_of_parent? hs) hn hmove
    · cases hmove

theorem evolves_detach (n : NodeId) : d.Evolves E (d.detach n) :=
  h.evolves_of_extends (h.toWellFormed.detach n) (extends_detach d n)

theorem evolves_clearChildren (n : NodeId) : d.Evolves E (d.clearChildren n) :=
  h.evolves_of_extends (h.toWellFormed.clearChildren n) (extends_clearChildren d n)

theorem evolves_removeChild (hmove : d.removeChild p n = .ok d') : d.Evolves E d' := by
  rw [removeChild] at hmove
  split at hmove
  · cases hmove
    exact h.evolves_detach n
  · cases hmove

theorem evolves_replaceChild {old : NodeId} (hn : d.isAllocated n)
    (hmove : d.replaceChild p n old = .ok d') : d.Evolves E d' := by
  rw [replaceChild] at hmove
  split at hmove
  · cases hmove
  rename_i hold
  rw [not_not] at hold
  split at hmove
  · cases hmove
    exact h.evolves_self
  split at hmove
  · cases hmove
  rename_i haccepted
  cases hmove
  have hput : d.Evolves E (d.put (.before old) n) :=
    h.evolves_of_extends (h.toWellFormed.put hn (isAllocated_of_parent? hold) haccepted)
      (extends_put d _ n)
  exact hput.trans (hput.sound.evolves_detach old)

end Sound
end Document

/-! Changes. -/

namespace Change
variable {d d' : Document} {ns : List NodeId} {change : Change}

/-- The nodes that a change names are nodes of the document, and nothing with children is made a text
or a comment. -/
def Admissible (d : Document) : Change → Prop
  | .create _ _ => True
  | .parse _ => True
  | .move spot n => d.Has spot ∧ d.isAllocated n
  | .insertBefore parent n reference =>
    d.isAllocated parent ∧ d.isAllocated n ∧ ∀ s ∈ reference, d.isAllocated s
  | .removeChild parent n => d.isAllocated parent ∧ d.isAllocated n
  | .replaceChild parent new old => d.isAllocated parent ∧ d.isAllocated new ∧ d.isAllocated old
  | .detach n => d.isAllocated n
  | .clearChildren n => d.isAllocated n
  | .copy n _ => d.isAllocated n
  | .setTextContent n _ => d.isAllocated n
  | .editElement n _ => d.isAllocated n
  | .assign n kind _ => d.isAllocated n ∧ (kind.isLeaf → d.children n = [])
  | .register nodes => ∀ n ∈ nodes, d.isAllocated n
  | .unregister nodes => ∀ n ∈ nodes, d.isAllocated n
  | .clearRoots => True

instance (d : Document) : (change : Change) → Decidable (change.Admissible d)
  | .create _ _ => inferInstanceAs (Decidable True)
  | .parse _ => inferInstanceAs (Decidable True)
  | .move _ _ => inferInstanceAs (Decidable (_ ∧ _))
  | .insertBefore _ _ _ => inferInstanceAs (Decidable (_ ∧ _ ∧ _))
  | .removeChild _ _ => inferInstanceAs (Decidable (_ ∧ _))
  | .replaceChild _ _ _ => inferInstanceAs (Decidable (_ ∧ _ ∧ _))
  | .detach n => inferInstanceAs (Decidable (d.isAllocated n))
  | .clearChildren n => inferInstanceAs (Decidable (d.isAllocated n))
  | .copy n _ => inferInstanceAs (Decidable (d.isAllocated n))
  | .setTextContent n _ => inferInstanceAs (Decidable (d.isAllocated n))
  | .editElement n _ => inferInstanceAs (Decidable (d.isAllocated n))
  | .assign _ _ _ => inferInstanceAs (Decidable (_ ∧ (_ → _)))
  | .register nodes => inferInstanceAs (Decidable (∀ n ∈ nodes, d.isAllocated n))
  | .unregister nodes => inferInstanceAs (Decidable (∀ n ∈ nodes, d.isAllocated n))
  | .clearRoots => inferInstanceAs (Decidable True)

/-- The nodes whose data a change is for. -/
def Edits (d : Document) (m : NodeId) : Change → Prop
  | .setTextContent n _ => m = n ∧ d.isLeaf m
  | .editElement n _ => m = n
  | .assign n _ _ => m = n
  | _ => False

theorem evolves_elementEdit (h : d.Sound) (n : NodeId) (edit : ElementEdit) :
    d.Evolves (· = n) (edit.run d n) := by
  cases edit with
  | setAttribute name value => exact h.evolves_modifyElement n _
  | removeAttribute name => exact h.evolves_modifyElement n _
  | setProperty name value => exact h.evolves_modifyElement n _
  | removeProperty name => exact h.evolves_modifyElement n _
  | custom edit => exact h.evolves_modifyElement n edit

/-- A change keeps all nodes, and what it gives out are nodes. -/
theorem evolves (h : d.Sound) (hchange : change.Admissible d)
    (hrun : change.run d = .ok (d', ns)) :
    d.Evolves (change.Edits d) d' ∧ ∀ n ∈ ns, d'.isAllocated n := by
  have hnone {given : List NodeId} (hgiven : [] = given) : ∀ n ∈ given, d'.isAllocated n := by
    rw [← hgiven]
    exact nofun
  have hone {n : NodeId} {given : List NodeId} (hgiven : [n] = given) (hn : d'.isAllocated n) :
      ∀ n ∈ given, d'.isAllocated n := by
    rw [← hgiven]
    rintro m hm
    rwa [List.mem_singleton.1 hm]
  cases change with
  | create kind space =>
    cases hrun
    have hadds := h.adds_create kind space
    exact ⟨h.evolves_of_adds hadds, fun n hn => (hadds.of_mem n hn).2⟩
  | parse markup =>
    obtain ⟨hadds, -⟩ := h.toWellFormed.parse markup
    rw [run, Except.ok.injEq] at hrun
    rw [hrun] at hadds
    exact ⟨h.evolves_of_adds hadds, fun n hn => (hadds.of_mem n hn).2⟩
  | move spot n =>
    obtain ⟨hrun, hgiven⟩ := map_pair_eq_ok.1 hrun
    exact ⟨h.evolves_move hchange.1 hchange.2 hrun, hnone hgiven⟩
  | insertBefore parent n reference =>
    obtain ⟨hrun, hgiven⟩ := map_pair_eq_ok.1 hrun
    exact ⟨h.evolves_insertBefore hchange.1 hchange.2.1 hrun, hnone hgiven⟩
  | removeChild parent n =>
    obtain ⟨hrun, hgiven⟩ := map_pair_eq_ok.1 hrun
    have hd := h.evolves_removeChild (E := (Change.removeChild parent n).Edits d) hrun
    exact ⟨hd, hone hgiven (hd.isAllocated n hchange.2)⟩
  | replaceChild parent new old =>
    obtain ⟨hrun, hgiven⟩ := map_pair_eq_ok.1 hrun
    have hd := h.evolves_replaceChild (E := (Change.replaceChild parent new old).Edits d)
      hchange.2.1 hrun
    exact ⟨hd, hone hgiven (hd.isAllocated old hchange.2.2)⟩
  | detach n =>
    cases hrun
    exact ⟨h.evolves_detach n, nofun⟩
  | clearChildren n =>
    cases hrun
    exact ⟨h.evolves_clearChildren n, nofun⟩
  | copy n deep =>
    cases hrun
    have hadds := h.adds_copy n deep
    exact ⟨h.evolves_of_adds hadds, fun n hn => (hadds.of_mem n hn).2⟩
  | setTextContent n text =>
    cases hrun
    exact ⟨h.evolves_setTextContent hchange text, nofun⟩
  | editElement n edit =>
    obtain ⟨hrun, hgiven⟩ := map_pair_eq_ok.1 hrun
    rw [Document.onElement] at hrun
    split at hrun
    · cases hrun
      exact ⟨evolves_elementEdit h n edit, hnone hgiven⟩
    · cases hrun
  | assign n kind space =>
    cases hrun
    exact ⟨h.evolves_modify (fun _ => rfl) (fun _ => rfl) fun _ _ hleaf => hchange.2 hleaf, nofun⟩
  | register nodes =>
    cases hrun
    exact ⟨h.evolves_register hchange, nofun⟩
  | unregister nodes =>
    cases hrun
    exact ⟨h.evolves_unregister nodes, nofun⟩
  | clearRoots =>
    cases hrun
    exact ⟨h.evolves_clearRoots, nofun⟩

end Change
end DomQuery
