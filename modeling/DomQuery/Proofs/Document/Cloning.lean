import DomQuery.Proofs.Document.Counting
import DomQuery.Proofs.Document.Likeness
import DomQuery.Proofs.Document.Refilling

/-!
Copying with a stack. A turn takes the pair that was pushed last, a node and its copy, appends copies of the
children of the node to the copy, and pushes each child with its copy. What is read may be the very document
that is written, because no turn touches the nodes that were there. The stack runs empty, and then the copy is
like the node.
-/
namespace DomQuery.Document
variable {source d d' : Document} {n m c t : NodeId} {cs working : List NodeId}
  {read : Document → Document} {origin : NodeId → NodeId} {missing : NodeId → List NodeId}

structure CopyState where
  document : Document
  pending : List (NodeId × NodeId)

def createLike (d source : Document) (n : NodeId) : Document × NodeId :=
  d.create ((source.kind? n).getD .fragment) (source.ns n)

/-- Here `read` says which document is read while another one is written. -/
def copyChild (read : Document → Document) (target : NodeId) (s : CopyState) (c : NodeId) : CopyState :=
  let (d, copied) := s.document.createLike (read s.document) c
  { document := d.put (.lastIn target) copied, pending := (c, copied) :: s.pending }

def copyTurn (read : Document → Document) (s : CopyState) : CopyState :=
  match s.pending with
  | [] => s
  | (n, target) :: pending => ((read s.document).children n).foldl (copyChild read target) { s with pending }

def copyStart (read : Document → Document) (d : Document) (n : NodeId) : CopyState :=
  let (d', copied) := d.createLike (read d) n
  { document := d', pending := [(n, copied)] }

/-- The document when nothing is pending any more. -/
def CopiesInSteps (read : Document → Document) (d : Document) (n : NodeId) (d' : Document) : Prop :=
  ∃ turns, (copyTurn read)^[turns] (copyStart read d n) = { document := d', pending := [] }

/-- Between two copies, each new node is the copy of its origin, up to the children that are missing. Children
are missing only from the nodes that are pending or being worked on. -/
structure Copying (source d : Document) (n : NodeId) (s : CopyState) (working : List NodeId)
    (origin : NodeId → NodeId) (missing : NodeId → List NodeId) : Prop where
  adds : d.Adds s.document [d.fresh]
  parent?_top : s.document.parent? d.fresh = none
  liesIn_top : ∀ m, d.fresh ≤ m → m < s.document.fresh → s.document.LiesIn m d.fresh
  origin_top : origin d.fresh = n
  isAllocated_origin : ∀ m, d.fresh ≤ m → m < s.document.fresh → source.isAllocated (origin m)
  data? : ∀ m, d.fresh ≤ m → m < s.document.fresh → s.document.data? m = source.data? (origin m)
  children : ∀ m, d.fresh ≤ m → m < s.document.fresh →
    (s.document.children m).map origin ++ missing m = source.children (origin m)
  pending : ∀ p ∈ s.pending, origin p.2 = p.1 ∧ s.document.children p.2 = []
  nodup : (working ++ s.pending.map Prod.snd).Nodup
  of_mem : ∀ m ∈ working ++ s.pending.map Prod.snd, d.fresh ≤ m ∧ m < s.document.fresh
  missing_eq_nil : ∀ m, d.fresh ≤ m → m < s.document.fresh →
    m ∉ working ++ s.pending.map Prod.snd → missing m = []

theorem data?_createLike (d : Document) (hn : source.isAllocated n) :
    (d.createLike source n).1.data? d.fresh = source.data? n := by
  obtain ⟨node, hnode⟩ := Option.isSome_iff_exists.1 hn
  simp [createLike, create, data?, node?_add, kind?, ns, hnode]

theorem createLike_congr (hsame : d'.node? n = source.node? n) :
    d.createLike d' n = d.createLike source n := by
  rw [createLike, createLike, kind?, kind?, ns, ns, hsame]

/-- The document `d'` has one node more, which is the last child of `t` and like `c`. -/
structure Gains (source : Document) (c : NodeId) (d : Document) (t : NodeId) (d' : Document) : Prop where
  wellFormed : d'.WellFormed
  fresh : d'.fresh = d.fresh + 1
  roots : d'.roots = d.roots
  data? : ∀ m, d'.data? m = if m = d.fresh then source.data? c else d.data? m
  parent? : ∀ m, d'.parent? m = if m = d.fresh then some t else d.parent? m
  children : ∀ q, d'.children q = if q = t then d.children t ++ [d.fresh] else d.children q

theorem WellFormed.gains_createLike (h : d.WellFormed) (hc : source.isAllocated c) (ht : d.isAllocated t)
    (hleaf : ¬ d.isLeaf t) :
    source.Gains c d t ((d.createLike source c).1.put (.lastIn t) d.fresh) := by
  have hmade : d.Adds (d.createLike source c).1 [d.fresh] := h.adds_create _ _
  have hspot : (Spot.lastIn t).parent? (d.createLike source c).1 = some t := rfl
  have hnew := (hmade.of_mem _ List.mem_cons_self).2
  have ht' := hmade.grows.toExtends.isAllocated ht
  have hnode (m : NodeId) (hm : m ≠ d.fresh) : (d.createLike source c).1.node? m = d.node? m := by
    rw [createLike, create, node?_add, if_neg hm]
  have hchildren : (d.createLike source c).1.children = d.children := by
    funext q
    by_cases hq : q = d.fresh
    · rw [hq, Document.children, Document.children, node?_of_le (Nat.le_refl _), createLike, create, node?_add,
        if_pos rfl]
      rfl
    · rw [Document.children, Document.children, hnode q hq]
  refine ⟨hmade.wellFormed.put hnew (has_of_parent? hspot ht') (hmade.refusal?_eq_none hspot ht hleaf), ?_, ?_,
    fun m => ?_, fun m => ?_, fun q => ?_⟩
  · rw [fresh_put, createLike, create, fresh_add]
  · rw [roots_put]
    rfl
  · rw [data?_put]
    split
    · rename_i hm
      rw [hm, data?_createLike d hc]
    · rename_i hm
      rw [Document.data?, Document.data?, hnode m hm]
  · rw [parent?_put hnew hspot]
    split
    · rfl
    · rename_i hm
      rw [Document.parent?, Document.parent?, hnode m hm]
  · have hnot (q : NodeId) : d.fresh ∉ d.children q := fun hmem =>
      Nat.lt_irrefl _ (lt_fresh (h.isAllocated_child hmem))
    rw [hmade.wellFormed.children_put (by simp [Spot.isNextTo]) hspot ht', hchildren, List.erase_of_not_mem (hnot t),
      List.erase_of_not_mem (hnot q)]
    rfl

namespace Gains
variable {e e' : Document} (h : source.Gains c e t e')
include h

theorem data?_of_lt (hm : m < e.fresh) : e'.data? m = e.data? m := by
  rw [h.data?, if_neg (Nat.ne_of_lt hm)]

theorem parent?_of_lt (hm : m < e.fresh) : e'.parent? m = e.parent? m := by
  rw [h.parent?, if_neg (Nat.ne_of_lt hm)]

theorem children_of_ne (hm : m ≠ t) : e'.children m = e.children m := by
  rw [h.children, if_neg hm]

theorem children_fresh (ht : t < e.fresh) : e'.children e.fresh = [] := by
  rw [h.children_of_ne (Nat.ne_of_gt ht), Document.children, node?_of_le (Nat.le_refl _)]
  rfl

theorem liesIn (hm : e.LiesIn m n) : e'.LiesIn m n := by
  refine liesIn_iff.2 (Relation.ReflTransGen.mono (fun a b hab => ?_) m n (liesIn_iff.1 hm))
  exact (h.parent?_of_lt (lt_fresh (isAllocated_of_parent? hab))).trans hab

theorem eq_or_lt (hm : m < e'.fresh) : m = e.fresh ∨ m < e.fresh :=
  (Nat.lt_or_eq_of_le (Nat.le_of_lt_succ (hm.trans_eq h.fresh))).symm

theorem adds (hadds : d.Adds e [d.fresh]) (ht : d.fresh ≤ t) : d.Adds e' [d.fresh] where
  grows := {
    node? := fun m hm => by
      have hlt := Nat.lt_of_lt_of_le hm hadds.grows.fresh_le
      refine Eq.trans (node?_eq_iff_views.2 ⟨h.data?_of_lt hlt, h.parent?_of_lt hlt, ?_⟩) (hadds.grows.node? m hm)
      exact h.children_of_ne (Nat.ne_of_lt (Nat.lt_of_lt_of_le hm ht))
    fresh_le := h.fresh ▸ Nat.le_succ_of_le hadds.grows.fresh_le
    roots := h.roots.trans hadds.grows.roots
    apart := fun m p hp => by
      rw [h.parent?] at hp
      split at hp
      · rename_i hm
        obtain rfl := Option.some.inj hp
        exact iff_of_true (hm ▸ hadds.grows.fresh_le) ht
      · exact hadds.grows.apart m p hp }
  wellFormed := h.wellFormed
  of_mem m hm := by
    obtain ⟨hle, hallocated⟩ := hadds.of_mem m hm
    exact ⟨hle, (isAllocated_congr (h.data?_of_lt (lt_fresh hallocated))).2 hallocated⟩

end Gains

theorem map_fst_foldl_copyChild (read : Document → Document) (t : NodeId) (s : CopyState) (cs : List NodeId) :
    (cs.foldl (copyChild read t) s).pending.map Prod.fst = cs.reverse ++ s.pending.map Prod.fst := by
  induction cs generalizing s with
  | nil => rfl
  | cons c cs ih =>
    rw [List.foldl_cons, ih, List.reverse_cons, List.append_assoc]
    rfl

section Gained
variable {s : CopyState} {e' : Document} (hs : Copying source d n s [t] origin missing)
  (hgains : source.Gains c s.document t e')
include hs hgains

theorem Copying.liesIn_of_gains (hle : d.fresh ≤ m) (hlt : m < e'.fresh) : e'.LiesIn m d.fresh := by
  rcases hgains.eq_or_lt hlt with rfl | hlt
  · obtain ⟨htle, htlt⟩ := hs.of_mem t List.mem_cons_self
    have hparent : e'.parent? s.document.fresh = some t := by rw [hgains.parent?, if_pos rfl]
    exact .trans (.inr (isWithin_of_parent? hparent)) (hgains.liesIn (hs.liesIn_top t htle htlt))
  · exact hgains.liesIn (hs.liesIn_top m hle hlt)

theorem Copying.data?_of_gains (hle : d.fresh ≤ m) (hlt : m < e'.fresh) :
    e'.data? m = source.data? (Function.update origin s.document.fresh c m) := by
  rcases hgains.eq_or_lt hlt with rfl | hlt
  · rw [hgains.data?, if_pos rfl, Function.update_self]
  · rw [hgains.data?_of_lt hlt, Function.update_of_ne (Nat.ne_of_lt hlt), hs.data? m hle hlt]

/-- The target has one child more that is there and one less that is missing. -/
theorem Copying.children_of_gains (hmissing : missing t = c :: cs) (hle : d.fresh ≤ m) (hlt : m < e'.fresh) :
    (e'.children m).map (Function.update origin s.document.fresh c) ++
        Function.update (Function.update missing t cs) s.document.fresh (source.children c) m =
      source.children (Function.update origin s.document.fresh c m) := by
  obtain ⟨-, ht⟩ := hs.of_mem t List.mem_cons_self
  have hmap : (s.document.children m).map (Function.update origin s.document.fresh c) =
      (s.document.children m).map origin :=
    List.map_congr_left fun k hk =>
      Function.update_of_ne (Nat.ne_of_lt (lt_fresh (hs.adds.wellFormed.isAllocated_child hk))) c origin
  rcases hgains.eq_or_lt hlt with rfl | hlt
  · rw [hgains.children_fresh ht, Function.update_self, Function.update_self]
    rfl
  have hne : m ≠ s.document.fresh := Nat.ne_of_lt hlt
  rw [Function.update_of_ne hne, Function.update_of_ne hne, ← hs.children m hle hlt]
  by_cases hmt : m = t
  · subst hmt
    rw [hgains.children, if_pos rfl, List.map_append, hmap, Function.update_self, hmissing, List.map_singleton,
      Function.update_self, List.append_assoc]
    rfl
  · rw [hgains.children_of_ne hmt, hmap, Function.update_of_ne hmt]

end Gained

section Turns
variable (hd : d.WellFormed) (hsource : source.WellFormed)
  (hread : ∀ d', d.Grows d' → ∀ m, source.isAllocated m → (read d').node? m = source.node? m)

include hd hread in
theorem copying_start (hn : source.isAllocated n) :
    Copying source d n (copyStart read d n) [] (fun _ => n) (fun _ => source.children n) := by
  have hstart : copyStart read d n =
      { document := (d.createLike source n).1, pending := [(n, d.fresh)] } := by
    rw [copyStart, createLike_congr (hread d (.refl hd) n hn)]
    rfl
  have hadds : d.Adds (d.createLike source n).1 [d.fresh] := hd.adds_create _ _
  have honly (m : NodeId) (hle : d.fresh ≤ m) (hlt : m < (d.createLike source n).1.fresh) : m = d.fresh := by
    simp only [createLike, create, fresh_add] at hlt
    exact Nat.le_antisymm (Nat.le_of_lt_succ hlt) hle
  have hbare : (d.createLike source n).1.parent? d.fresh = none ∧
      (d.createLike source n).1.children d.fresh = [] := by
    simp [createLike, create, parent?, Document.children, node?_add]
  rw [hstart]
  exact {
    adds := hadds
    parent?_top := hbare.1
    liesIn_top := fun m hle hlt => .inl (honly m hle hlt)
    origin_top := rfl
    isAllocated_origin := fun _ _ _ => hn
    data? := fun m hle hlt => honly m hle hlt ▸ data?_createLike d hn
    children := fun m hle hlt => by
      rw [honly m hle hlt, hbare.2]
      rfl
    pending := fun p hp => by
      obtain rfl := List.mem_singleton.1 hp
      exact ⟨rfl, hbare.2⟩
    nodup := List.nodup_singleton _
    of_mem := fun m hm => List.mem_singleton.1 hm ▸
      ⟨Nat.le_refl _, lt_fresh (hadds.of_mem _ List.mem_cons_self).2⟩
    missing_eq_nil := fun m hle hlt hnot => absurd (List.mem_singleton.2 (honly m hle hlt)) hnot }

include hsource hread

theorem Copying.copyChild {s : CopyState} (hs : Copying source d n s [t] origin missing)
    (hmissing : missing t = c :: cs) :
    Copying source d n (Document.copyChild read t s c) [t]
      (Function.update origin s.document.fresh c)
      (Function.update (Function.update missing t cs) s.document.fresh (source.children c)) := by
  obtain ⟨hle, ht⟩ := hs.of_mem t List.mem_cons_self
  obtain ⟨htop, hnodup⟩ := List.nodup_cons.1 hs.nodup
  have hc : c ∈ source.children (origin t) := by
    rw [← hs.children t hle ht, hmissing]
    exact List.mem_append_right _ List.mem_cons_self
  have hallocated := hsource.isAllocated_child hc
  have htarget := (hs.liesIn_top t hle ht).isAllocated (hs.adds.of_mem _ List.mem_cons_self).2
  have hleaf : ¬ s.document.isLeaf t := by
    rw [isLeaf, kind?_eq_data?, hs.data? t hle ht, ← kind?_eq_data?]
    exact hsource.not_isLeaf_parent (hsource.parent?_eq_some_iff.2 hc)
  have hgains := hs.adds.wellFormed.gains_createLike hallocated htarget hleaf
  have hstate : Document.copyChild read t s c = {
      document := (s.document.createLike source c).1.put (.lastIn t) s.document.fresh
      pending := (c, s.document.fresh) :: s.pending } := by
    rw [Document.copyChild, createLike_congr (hread _ hs.adds.grows c hallocated)]
    rfl
  rw [hstate]
  generalize (s.document.createLike source c).1.put (.lastIn t) s.document.fresh = e' at hgains ⊢
  clear hstate
  have hne {m : NodeId} (hm : m < s.document.fresh) : m ≠ s.document.fresh := Nat.ne_of_lt hm
  have horigin {m : NodeId} (hm : m < s.document.fresh) : Function.update origin s.document.fresh c m = origin m :=
    Function.update_of_ne (hne hm) c origin
  have hold (m : NodeId) (hm : m ∈ s.pending.map Prod.snd) : m < s.document.fresh ∧ m ≠ t :=
    ⟨(hs.of_mem m (List.mem_cons_of_mem t hm)).2, ne_of_mem_of_not_mem hm htop⟩
  constructor
  case adds => exact hgains.adds hs.adds hle
  case parent?_top =>
    exact (hgains.parent?_of_lt (lt_fresh (hs.adds.of_mem _ List.mem_cons_self).2)).trans hs.parent?_top
  case liesIn_top => exact fun m hm hlt => hs.liesIn_of_gains hgains hm hlt
  case origin_top =>
    rw [horigin (lt_fresh (hs.adds.of_mem _ List.mem_cons_self).2), hs.origin_top]
  case isAllocated_origin =>
    intro m hm hlt
    rcases hgains.eq_or_lt hlt with rfl | hlt
    · rwa [Function.update_self]
    · rw [horigin hlt]
      exact hs.isAllocated_origin m hm hlt
  case data? => exact fun m hm hlt => hs.data?_of_gains hgains hm hlt
  case children => exact fun m hm hlt => hs.children_of_gains hgains hmissing hm hlt
  case pending =>
    intro p hp
    rcases List.mem_cons.1 hp with rfl | hp
    · exact ⟨Function.update_self .., hgains.children_fresh ht⟩
    · obtain ⟨hlt, hmt⟩ := hold p.2 (List.mem_map_of_mem hp)
      obtain ⟨horiginal, hnone⟩ := hs.pending p hp
      exact ⟨(horigin hlt).trans horiginal, (hgains.children_of_ne hmt).trans hnone⟩
  case nodup =>
    refine List.nodup_cons.2 ⟨?_, List.nodup_cons.2 ⟨fun hmem => hne (hold _ hmem).1 rfl, hnodup⟩⟩
    exact List.not_mem_cons_of_ne_of_not_mem (hne ht) htop
  case of_mem =>
    intro m hm
    rw [hgains.fresh]
    rcases List.mem_cons.1 hm with rfl | hm
    · exact ⟨hle, Nat.lt_succ_of_lt ht⟩
    rcases List.mem_cons.1 hm with rfl | hm
    · exact ⟨hs.adds.grows.fresh_le, Nat.lt_succ_self _⟩
    · exact (hs.of_mem m (List.mem_cons_of_mem t hm)).imp_right Nat.lt_succ_of_lt
  case missing_eq_nil =>
    intro m hm hlt hnot
    have hmt := List.ne_of_not_mem_cons hnot
    have hmx := List.ne_of_not_mem_cons (List.not_mem_of_not_mem_cons hnot)
    have hfar := List.not_mem_of_not_mem_cons (List.not_mem_of_not_mem_cons hnot)
    rw [Function.update_of_ne hmx, Function.update_of_ne hmt]
    exact hs.missing_eq_nil m hm ((hgains.eq_or_lt hlt).resolve_left hmx) (List.not_mem_cons_of_ne_of_not_mem hmt hfar)

theorem Copying.foldl_copyChild {s : CopyState} (hs : Copying source d n s [t] origin missing)
    (hmissing : missing t = cs) : ∃ origin missing,
      Copying source d n (cs.foldl (Document.copyChild read t) s) [t] origin missing ∧ missing t = [] := by
  induction cs generalizing s origin missing with
  | nil => exact ⟨origin, missing, hs, hmissing⟩
  | cons c cs ih =>
    refine ih (hs.copyChild hsource hread hmissing) ?_
    have ht : t ≠ s.document.fresh := Nat.ne_of_lt (hs.of_mem t List.mem_cons_self).2
    rw [Function.update_of_ne ht, Function.update_self]

/-- A turn completes a copy. What is below the nodes that are pending has one node less then. -/
theorem Copying.copyTurn {s : CopyState} {p : NodeId × NodeId} {rest : List (NodeId × NodeId)}
    (hs : Copying source d n s [] origin missing) (hpending : s.pending = p :: rest) :
    (∃ origin missing, Copying source d n (Document.copyTurn read s) [] origin missing) ∧
      source.forestSize (s.pending.map Prod.fst) =
        source.forestSize ((Document.copyTurn read s).pending.map Prod.fst) + 1 := by
  obtain ⟨a, t⟩ := p
  obtain ⟨hle, ht⟩ := hs.of_mem t (by simp [hpending])
  obtain ⟨horigin, hnone⟩ := hs.pending (a, t) (by simp [hpending])
  have hallocated : source.isAllocated a := by
    rw [← show origin t = a from horigin]
    exact hs.isAllocated_origin t hle ht
  have hall : missing t = source.children a := by
    have hchildren := hs.children t hle ht
    rwa [hnone, horigin] at hchildren
  have hstate : Document.copyTurn read s =
      (source.children a).foldl (Document.copyChild read t) { s with pending := rest } := by
    have hsame : (read s.document).children a = source.children a := by
      rw [Document.children, Document.children, hread _ hs.adds.grows a hallocated]
    rw [Document.copyTurn, hpending]
    exact congrArg (List.foldl _ _) hsame
  have hworking : Copying source d n { s with pending := rest } [t] origin missing := {
    hs with
    pending := fun q hq => hs.pending q (by simp [hpending, hq])
    nodup := by simpa [hpending] using hs.nodup
    of_mem := fun m hm => hs.of_mem m (by simpa [hpending] using hm)
    missing_eq_nil := fun m hm hlt hnot => hs.missing_eq_nil m hm hlt (by simpa [hpending] using hnot) }
  have hmap := map_fst_foldl_copyChild read t { s with pending := rest } (source.children a)
  obtain ⟨origin', missing', hdone, hcomplete⟩ := hworking.foldl_copyChild hsource hread hall
  rw [hstate, hmap, hpending]
  generalize (source.children a).foldl (Document.copyChild read t) { s with pending := rest } = s' at hdone
  refine ⟨⟨origin', missing', { hdone with
    nodup := (List.nodup_cons.1 hdone.nodup).2
    of_mem := fun m hm => hdone.of_mem m (List.mem_cons_of_mem t hm)
    missing_eq_nil := fun m hm hlt hnot => ?_ }⟩, ?_⟩
  · by_cases hmt : m = t
    · rw [hmt, hcomplete]
    · exact hdone.missing_eq_nil m hm hlt (List.not_mem_cons_of_ne_of_not_mem hmt hnot)
  · have hsize := hsource.treeSize_eq (n := a) (Nat.zero_lt_of_lt (lt_fresh hallocated))
    rw [List.map_cons, forestSize_cons, hsize, forestSize_append, forestSize_perm (List.reverse_perm _), Nat.add_assoc,
      Nat.add_comm]

theorem Copying.iterate_copyTurn {s : CopyState} (hs : Copying source d n s [] origin missing) :
    ∃ d' origin missing, Copying source d n { document := d', pending := [] } [] origin missing ∧
      (Document.copyTurn read)^[source.forestSize (s.pending.map Prod.fst)] s =
        { document := d', pending := [] } := by
  induction hsize : source.forestSize (s.pending.map Prod.fst) generalizing s origin missing with
  | zero =>
    obtain ⟨e, pending⟩ := s
    cases pending with
    | nil => exact ⟨e, origin, missing, hs, rfl⟩
    | cons p rest =>
      obtain ⟨-, hdrop⟩ := hs.copyTurn hsource hread rfl
      exact absurd (hdrop.symm.trans hsize) (Nat.succ_ne_zero _)
  | succ size ih =>
    cases hpending : s.pending with
    | nil =>
      rw [hpending] at hsize
      exact absurd hsize.symm (Nat.succ_ne_zero _)
    | cons p rest =>
      obtain ⟨⟨origin', missing', hturn⟩, hdrop⟩ := hs.copyTurn hsource hread hpending
      exact ih hturn (Nat.succ_inj.1 (hdrop.symm.trans hsize))

omit hread in
/-- With nothing missing, each copy is like its origin. -/
theorem Copying.alike {s : CopyState} (hs : Copying source d n s [] origin missing) (hpending : s.pending = [])
    (hle : d.fresh ≤ m) (hlt : m < s.document.fresh) : source.Alike s.document (origin m) m := by
  induction horigin : origin m using hsource.descend generalizing m with
  | step a ih =>
    refine .node (horigin ▸ hs.data? m hle hlt) ?_
    have hchildren := hs.children m hle hlt
    rw [hs.missing_eq_nil m hle hlt (by simp [hpending]), List.append_nil, horigin] at hchildren
    rw [← hchildren, List.forall₂_map_left_iff, List.forall₂_same]
    intro k hk
    have hparent := hs.adds.wellFormed.parent?_eq_some_iff.2 hk
    have hallocated := hs.adds.wellFormed.isAllocated_child hk
    exact ih (origin k) (hchildren ▸ List.mem_map_of_mem hk) ((hs.adds.grows.apart k m hparent).2 hle)
      (lt_fresh hallocated) rfl

end Turns

end DomQuery.Document
