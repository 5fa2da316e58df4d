import DomQuery.Proofs.Document.Enclosing
import DomQuery.Proofs.Document.Rearranging
import DomQuery.Proofs.Document.Soundness

/-!
New content for nodes. What was in a node leaves it, with all that is below, and the new content is made of
nodes that did not exist before; so what one node gets cannot be taken from it when another one is emptied,
in whatever order that happens and wherever the two stand.
-/
namespace DomQuery.Document
variable {d d' d'' : Document} {n m p q t start : NodeId} {ns ms : List NodeId} {text : String}

/-- The nodes `ns` may have been emptied, or written over if they are texts or comments; everything else
that was there is as it was, apart from the parent of what was taken out. -/
structure Empties (d d' : Document) (ns : List NodeId) : Prop where
  wellFormed : d'.WellFormed
  fresh_le : d.fresh ≤ d'.fresh
  isAllocated : ∀ m, d.isAllocated m → d'.isAllocated m
  data? : ∀ m < d.fresh, ¬ (m ∈ ns ∧ d.isLeaf m) → d'.data? m = d.data? m
  parent? : ∀ m < d.fresh, d'.parent? m = (d.parent? m).filter (· ∉ ns)
  children : ∀ q < d.fresh, q ∉ ns → d'.children q = d.children q

/-- The old nodes are as they were, except for what is in the nodes `ns`. -/
structure SameAround (d d' : Document) (ns : List NodeId) : Prop where
  wellFormed : d'.WellFormed
  fresh_le : d.fresh ≤ d'.fresh
  data? : ∀ m < d.fresh, d'.data? m = d.data? m
  parent? : ∀ m < d.fresh, d'.parent? m = d.parent? m
  children : ∀ q < d.fresh, q ∉ ns → d'.children q = d.children q

namespace Empties

theorem refl (h : d.WellFormed) : d.Empties d [] where
  wellFormed := h
  fresh_le := Nat.le_refl _
  isAllocated _ := id
  data? _ _ _ := rfl
  parent? m _ := by cases d.parent? m <;> rfl
  children _ _ _ := rfl

theorem isLeaf_eq (he : d.Empties d' ns) (hm : m < d.fresh) (hfree : ¬ (m ∈ ns ∧ d.isLeaf m)) :
    d'.isLeaf m = d.isLeaf m := isLeaf_congr (he.data? m hm hfree)

theorem append (he : d.Empties d' ns) (he' : d'.Empties d'' ms) : d.Empties d'' (ns ++ ms) where
  wellFormed := he'.wellFormed
  fresh_le := he.fresh_le.trans he'.fresh_le
  isAllocated m hm := he'.isAllocated m (he.isAllocated m hm)
  data? m hm hfree := by
    have hns : ¬ (m ∈ ns ∧ d.isLeaf m) := fun hboth => hfree (hboth.imp_left (List.mem_append_left ms))
    rw [he'.data? m (Nat.lt_of_lt_of_le hm he.fresh_le) fun hboth => hfree ?_, he.data? m hm hns]
    rw [he.isLeaf_eq hm hns] at hboth
    exact hboth.imp_left (List.mem_append_right ns)
  parent? m hm := by
    rw [he'.parent? m (Nat.lt_of_lt_of_le hm he.fresh_le), he.parent? m hm, Option.filter_filter]
    exact congrArg (Option.filter · _) (funext fun p => by simp)
  children q hq hnot := by
    rw [List.mem_append, not_or] at hnot
    rw [he'.children q (Nat.lt_of_lt_of_le hq he.fresh_le) hnot.2, he.children q hq hnot.1]

theorem followed (he : d.Empties d' ns) (hs : d'.SameAround d'' ns) : d.Empties d'' ns where
  wellFormed := hs.wellFormed
  fresh_le := he.fresh_le.trans hs.fresh_le
  isAllocated m hm := by
    have hm := he.isAllocated m hm
    rwa [isAllocated_congr (hs.data? m (lt_fresh hm))]
  data? m hm hfree := (hs.data? m (Nat.lt_of_lt_of_le hm he.fresh_le)).trans (he.data? m hm hfree)
  parent? m hm := (hs.parent? m (Nat.lt_of_lt_of_le hm he.fresh_le)).trans (he.parent? m hm)
  children q hq hnot :=
    (hs.children q (Nat.lt_of_lt_of_le hq he.fresh_le) hnot).trans (he.children q hq hnot)

end Empties

/-! Taking out. -/

theorem WellFormed.empties_clearChildren (h : d.WellFormed) (n : NodeId) :
    d.Empties (d.clearChildren n) [n] ∧ (d.clearChildren n).children n = [] := by
  have hreleases := h.releases_clearChildren n
  refine ⟨⟨h.clearChildren n, hreleases.fresh.ge, fun m => (extends_clearChildren d n).isAllocated,
    fun m _ _ => hreleases.data? m, fun m _ => ?_, fun q _ hq => ?_⟩, ?_⟩
  · have hmem := h.parent?_eq_some_iff (n := m) (p := n)
    rw [hreleases.parent?]
    cases hp : d.parent? m with
    | none => simp
    | some p => by_cases heq : p = n <;> simp_all [Option.filter_some]
  · rw [hreleases.children, List.filter_eq_self]
    refine fun c hc => decide_eq_true fun hmem => hq (List.mem_singleton.2 (Option.some.inj ?_))
    rw [← h.parent?_eq_some_iff.2 hc, h.parent?_eq_some_iff.2 hmem]
  · rw [hreleases.children]
    simp

/-- One node after the other: what a step does to its own node is left alone by the later ones. -/
theorem WellFormed.empties_foldl {f : Document → NodeId → Document} {P : Document → NodeId → Prop}
    (h : d.WellFormed)
    (hstep : ∀ e n, e.WellFormed → d.fresh ≤ e.fresh → e.isAllocated n →
      e.Empties (f e n) [n] ∧ P (f e n) n)
    (hkeep : ∀ e e' m n, P e m → e.Empties e' [n] → e.isAllocated m → m ≠ n → n < d.fresh → P e' m)
    (hns : ∀ n ∈ ns, d.isAllocated n) : d.Empties (ns.foldl f d) ns ∧ ∀ n ∈ ns, P (ns.foldl f d) n := by
  induction ns using List.reverseRecOn with
  | nil => exact ⟨.refl h, nofun⟩
  | append_singleton ns n ih =>
    obtain ⟨hns, hn⟩ := List.forall_mem_append.1 hns
    have hn := hn n List.mem_cons_self
    obtain ⟨he, hdone⟩ := ih hns
    obtain ⟨hlast, hnow⟩ := hstep _ n he.wellFormed he.fresh_le (he.isAllocated n hn)
    rw [List.foldl_append]
    refine ⟨he.append hlast, fun m hm => ?_⟩
    by_cases heq : m = n
    · exact heq ▸ hnow
    · have hm : m ∈ ns := (List.mem_append.1 hm).resolve_right (List.mem_singleton.not.2 heq)
      exact hkeep _ _ m n (hdone m hm) hlast (he.isAllocated m (hns m hm)) heq (lt_fresh hn)

theorem WellFormed.empties_foldl_clearChildren (h : d.WellFormed) (hns : ∀ n ∈ ns, d.isAllocated n) :
    d.Empties (ns.foldl Document.clearChildren d) ns ∧
      ∀ n ∈ ns, (ns.foldl Document.clearChildren d).children n = [] := by
  refine h.empties_foldl (P := fun e n => e.children n = []) (fun e n he _ _ => he.empties_clearChildren n)
    (fun e e' m n hempty he hm hne _ => ?_) hns
  exact (he.children m (lt_fresh hm) (List.mem_singleton.not.2 hne)).trans hempty

/-! Texts. -/

/-- The node has the text as its own data, or all that is in it is one text, which has come in since
`start`; for the empty text there is nothing in it. -/
def Says (d : Document) (start : NodeId) (text : String) (n : NodeId) : Prop :=
  d.kind? n = some (.text text) ∨ d.kind? n = some (.comment text) ∨
    ¬ d.isLeaf n ∧ (text = "" ∧ d.children n = [] ∨
      ∃ t, start ≤ t ∧ d.children n = [t] ∧ d.kind? t = some (.text text))

theorem Says.mono {start' : NodeId} (h : d.Says start text n) (hle : start' ≤ start) :
    d.Says start' text n :=
  h.imp_right <| .imp_right <| .imp_right <| .imp_right fun ⟨t, ht, hrest⟩ => ⟨t, hle.trans ht, hrest⟩

theorem isLeaf_of_text (h : d.kind? n = some (.text text) ∨ d.kind? n = some (.comment text)) :
    d.isLeaf n := by
  rw [isLeaf]
  rcases h with h | h
  · rw [h]
    rfl
  · rw [h]
    rfl

theorem Says.of_empties (h : d.Says start text m) (he : d.Empties d' [n]) (hm : d.isAllocated m)
    (hne : m ≠ n) (hn : n < start) : d'.Says start text m := by
  have hsame {x : NodeId} (hx : d.isAllocated x) (hxn : x ≠ n) : d'.data? x = d.data? x :=
    he.data? x (lt_fresh hx) fun hboth => hxn (List.mem_singleton.1 hboth.1)
  rw [Says, kind?_congr (hsame hm hne), isLeaf_congr (hsame hm hne),
    he.children m (lt_fresh hm) (List.mem_singleton.not.2 hne)]
  refine h.imp_right <| .imp_right <| .imp_right <| .imp_right ?_
  rintro ⟨t, ht, hchildren, hkind⟩
  refine ⟨t, ht, hchildren, ?_⟩
  rwa [kind?_congr (hsame (isAllocated_of_kind? hkind) (Nat.ne_of_gt (Nat.lt_of_lt_of_le hn ht)))]

theorem WellFormed.textContent_of_written (h : d.WellFormed) (hn : d.isAllocated n)
    (hwritten : d.Says start text n) : d.textContent n = text := by
  have hsubtree := h.subtree_eq (n := n) (Nat.zero_lt_of_lt (lt_fresh hn))
  have hleaf {x : NodeId} (hx : d.isLeaf x) : d.subtree x = [x] := by
    rw [h.subtree_eq (Nat.zero_lt_of_lt (lt_fresh hn)), h.children_of_isLeaf hx]
    rfl
  rw [textContent]
  rcases hwritten with hkind | hkind | ⟨hnot, hinside⟩
  · rw [hleaf (isLeaf_of_text (.inl hkind))]
    simp [hkind]
  · rw [hleaf (isLeaf_of_text (.inr hkind))]
    simp [hkind]
  · have hown : d.kind? n = none ∨ d.kind? n = some .fragment ∨ ∃ e, d.kind? n = some (.element e) := by
      cases hkind : d.kind? n with
      | none => exact .inl rfl
      | some kind =>
        cases kind with
        | fragment => exact .inr (.inl rfl)
        | element e => exact .inr (.inr ⟨e, rfl⟩)
        | text data => exact absurd (isLeaf_of_text (.inl hkind)) hnot
        | comment data => exact absurd (isLeaf_of_text (.inr hkind)) hnot
    rcases hinside with ⟨rfl, hchildren⟩ | ⟨t, -, hchildren, hkind⟩
    · rw [hsubtree, hchildren]
      rcases hown with hown | hown | ⟨e, hown⟩ <;> simp [hown]
    · rw [hsubtree, hchildren, List.flatMap_singleton, hleaf (isLeaf_of_text (.inl hkind))]
      rcases hown with hown | hown | ⟨e, hown⟩ <;> simp [hown, hkind]

theorem WellFormed.links_put_create (h : d.WellFormed) (hn : d.isAllocated n) (kind : Kind)
    (space : Namespace) :
    (∀ m < d.fresh, ((d.create kind space).1.put (.lastIn n) (d.create kind space).2).parent? m =
        d.parent? m) ∧
      (∀ q < d.fresh, ((d.create kind space).1.put (.lastIn n) (d.create kind space).2).children q =
        if q = n then d.children n ++ [d.fresh] else d.children q) ∧
      ((d.create kind space).1.put (.lastIn n) (d.create kind space).2).kind? d.fresh = some kind := by
  obtain ⟨hparents, hlists⟩ := (h.adds_create kind space).links_put h
    (show (Spot.lastIn n).parent? _ = some n from rfl) hn
  refine ⟨hparents, hlists, ?_⟩
  rw [kind?_congr (data?_put ..), create, kind?, node?_add, if_pos rfl]
  rfl

theorem Empties.says_of_links (he : d.Empties d' [n]) (hn : d.isAllocated n) (hleaf : ¬ d'.isLeaf n)
    (hempty : d'.children n = []) (hwell : d''.WellFormed) (hmore : d'.Extends d'')
    (hparents : ∀ m < d'.fresh, d''.parent? m = d'.parent? m)
    (hlists : ∀ q < d'.fresh, d''.children q = if q = n then d'.children n ++ [d'.fresh] else d'.children q)
    (hkind : d''.kind? d'.fresh = some (.text text)) :
    d.Empties d'' [n] ∧ d''.Says d.fresh text n := by
  have hlt := lt_fresh (he.isAllocated n hn)
  refine ⟨he.followed ⟨hwell, hmore.fresh_le, hmore.data?, hparents, fun q hq hnot => ?_⟩,
    .inr (.inr ⟨?_, .inr ⟨_, he.fresh_le, ?_, hkind⟩⟩)⟩
  · rw [hlists q hq, if_neg (List.mem_singleton.not.1 hnot)]
  · rwa [hmore.isLeaf_iff (he.isAllocated n hn)]
  · rw [hlists n hlt, if_pos rfl, hempty]
    rfl

theorem WellFormed.empties_modify (h : d.WellFormed) (hn : d.isAllocated n) (hleaf : d.isLeaf n)
    (kind : Kind) :
    d.Empties (d.modify n fun node => { node with kind }) [n] ∧
      (d.modify n fun node => { node with kind }).kind? n = some kind := by
  refine ⟨⟨h.modify (fun _ => rfl) (fun _ => rfl) fun _ _ _ => h.children_of_isLeaf hleaf,
    (fresh_modify ..).ge, fun m hm => by rwa [isAllocated_modify], fun m _ hfree => ?_, fun m _ => ?_,
    fun q _ _ => children_modify fun _ => rfl⟩, ?_⟩
  · have hne : m ≠ n := fun heq => hfree ⟨List.mem_singleton.2 heq, heq ▸ hleaf⟩
    rw [Document.data?, node?_modify, if_neg hne, Document.data?]
  · rw [parent?_modify (f := fun node => { node with kind }) fun _ => rfl]
    cases hp : d.parent? m with
    | none => rfl
    | some p =>
      have hne : p ≠ n := fun heq => h.not_isLeaf_parent hp (heq ▸ hleaf)
      simp [Option.filter_some, hne]
  · obtain ⟨node, hnode⟩ := Option.isSome_iff_exists.1 hn
    rw [kind?, node?_modify, if_pos rfl, hnode]
    rfl

theorem WellFormed.setTextContent_writes (h : d.WellFormed) (hn : d.isAllocated n) (text : String) :
    d.Empties (d.setTextContent n text) [n] ∧ (d.setTextContent n text).Says d.fresh text n := by
  rw [setTextContent]
  split
  · rename_i old hkind
    exact (h.empties_modify hn (isLeaf_of_text (.inl hkind)) (.text text)).imp_right .inl
  · rename_i old hkind
    exact (h.empties_modify hn (isLeaf_of_text (.inr hkind)) (.comment text)).imp_right (.inr ∘ .inl)
  · rename_i htext hcomment
    obtain ⟨he, hempty⟩ := h.empties_clearChildren n
    have hleaf : ¬ d.isLeaf n := not_isLeaf htext hcomment
    have hbare : ¬ (d.clearChildren n).isLeaf n := by
      rwa [(extends_clearChildren d n).isLeaf_iff hn]
    split
    · rename_i hnil
      exact ⟨he, .inr (.inr ⟨hbare, .inl ⟨String.isEmpty_iff.1 hnil, hempty⟩⟩)⟩
    · obtain ⟨hwell, hmore⟩ := he.wellFormed.put_create (he.isAllocated n hn) hbare (.text text) .html
      obtain ⟨hparents, hlists, hkind⟩ :=
        he.wellFormed.links_put_create (he.isAllocated n hn) (.text text) .html
      exact he.says_of_links hn hbare hempty hwell hmore hparents hlists hkind

/-- Every node says the text in the end, whether those above it were written before it or after it. -/
theorem WellFormed.foldl_setTextContent (h : d.WellFormed) (hns : ∀ n ∈ ns, d.isAllocated n)
    (text : String) :
    d.Empties (ns.foldl (fun d n => d.setTextContent n text) d) ns ∧
      ∀ n ∈ ns, (ns.foldl (fun d n => d.setTextContent n text) d).Says d.fresh text n := by
  refine h.empties_foldl (P := fun e => e.Says d.fresh text) (fun e n he hle hn => ?_)
    (fun e e' m n hwritten he hm hne hn => hwritten.of_empties he hm hne hn) hns
  exact (he.setTextContent_writes hn text).imp_right fun hwritten => hwritten.mono hle

end DomQuery.Document
