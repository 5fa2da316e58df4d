import DomQuery.Proofs.Markup.Construction.Keeping
import DomQuery.Proofs.Markup.Lifting

/-!
Loose text. Which nodes have a text child that is more than layout, before and after each of the steps by
which a document is built.
-/
namespace DomQuery
variable {d d' : Document} {spot : Spot} {n m p q t c last : NodeId} {ns : List NodeId} {text old tag : String}

theorem Markup.isLayout_append : Markup.IsLayout (old ++ text) ↔ Markup.IsLayout old ∧ Markup.IsLayout text := by
  rw [IsLayout, String.toList_append, List.forall_mem_append, IsLayout, IsLayout]

namespace Document
open Markup (IsLayout)

theorem text?_congr (h : d'.data? n = d.data? n) : d'.text? n = d.text? n := by
  rw [text?, text?, kind?_congr h]

theorem text?_eq_some_iff : d.text? n = some text ↔ d.kind? n = some (.text text) := by
  rw [text?]
  cases d.kind? n with
  | none => simp
  | some kind => cases kind <;> simp [Kind.text?]

/-- A child is a text and more than layout. -/
def HasLooseText (d : Document) (p : NodeId) : Prop :=
  ∃ n ∈ d.children p, ∃ text, d.text? n = some text ∧ ¬ IsLayout text

theorem WellFormed.hasLooseText_iff (h : d.WellFormed) : d.HasLooseText p ↔
    ∃ n text, d.parent? n = some p ∧ d.text? n = some text ∧ ¬ IsLayout text := by
  simp only [HasLooseText, ← h.parent?_eq_some_iff, exists_and_left]

/-! Moves. -/

theorem WellFormed.hasLooseText_of_moved (h : d.WellFormed) (h' : d'.WellFormed)
    (hdata : ∀ m, d'.data? m = d.data? m)
    (hparent : ∀ m text, d.text? m = some text → (d'.parent? m = some p ↔ d.parent? m = some p)) :
    d'.HasLooseText p ↔ d.HasLooseText p := by
  rw [h.hasLooseText_iff, h'.hasLooseText_iff]
  constructor
  · rintro ⟨m, text, hp, htext, hloose⟩
    rw [text?_congr (hdata m)] at htext
    exact ⟨m, text, (hparent m text htext).1 hp, htext, hloose⟩
  · rintro ⟨m, text, hp, htext, hloose⟩
    exact ⟨m, text, (hparent m text htext).2 hp, (text?_congr (hdata m)).trans htext, hloose⟩

theorem data?_tryPut (d : Document) (spot : Spot) (n m : NodeId) :
    (d.tryPut spot n).data? m = d.data? m := by
  rw [tryPut]
  split
  · rfl
  · exact data?_put d spot n m

theorem data?_tryPutAll (d : Document) (spot : Spot) (ns : List NodeId) (m : NodeId) :
    (d.tryPutAll spot ns).data? m = d.data? m :=
  foldl_keeps (·.data? m) (fun d n => data?_tryPut d spot n m) ns d

theorem parent?_tryPut_of_ne (hn : d.isAllocated n) (hm : m ≠ n) :
    (d.tryPut spot n).parent? m = d.parent? m := by
  cases haccepted : d.refusal? spot n with
  | some e => rw [tryPut_of_isSome (by rw [haccepted]; rfl)]
  | none =>
    obtain ⟨q, hq, -⟩ := refusal?_eq_none_iff.1 haccepted
    rw [tryPut_of_eq_none haccepted, parent?_put hn hq, if_neg hm]

theorem appendText_of_text (text : String) (hlast : d.lastChild? q = some last) (hold : d.text? last = some old)
    (m : NodeId) :
    (d.appendText q text).parent? m = d.parent? m ∧ (d.appendText q text).kind? m =
      if m = last then some (.text (old ++ text)) else d.kind? m := by
  have hkind : d.kind? last = some (.text old) := text?_eq_some_iff.1 hold
  obtain ⟨node, hnode, hnodekind⟩ := Option.map_eq_some_iff.1 hkind
  obtain ⟨lengthen, hlengthened, hparent, hlonger⟩ : ∃ lengthen : Node → Node,
      d.appendText q text = d.modify last lengthen ∧ (∀ node, (lengthen node).parent = node.parent) ∧
        ∀ node, node.kind = .text old → (lengthen node).kind = .text (old ++ text) := by
    simp only [Document.appendText, hlast, hold]
    exact ⟨_, rfl, fun node => by split <;> rfl, fun node hnode => by simp [hnode]⟩
  rw [hlengthened]
  refine ⟨parent?_modify hparent, ?_⟩
  rw [kind?, node?_modify]
  split
  · simp [hnode, hlonger node hnodekind]
  · rfl

namespace WellFormed
variable (h : d.WellFormed)
include h

theorem hasLooseText_detach (hn : d.text? n = none) : (d.detach n).HasLooseText p ↔ d.HasLooseText p := by
  refine h.hasLooseText_of_moved (h.detach n) (data?_detach d n) fun m text hm => ?_
  rw [parent?_detach, if_neg]
  rintro rfl
  cases hn.symm.trans hm

theorem hasLooseText_tryPut (hallocated : d.isAllocated n) (hspot : d.Has spot) (hn : d.text? n = none) :
    (d.tryPut spot n).HasLooseText p ↔ d.HasLooseText p := by
  refine h.hasLooseText_of_moved (h.tryPut hallocated hspot) (data?_tryPut d _ n) fun m text hm => ?_
  rw [parent?_tryPut_of_ne hallocated]
  rintro rfl
  cases hn.symm.trans hm

theorem hasLooseText_moveChildren (hq : d.isAllocated q) (hpc : p ≠ c) (hpq : p ≠ q) :
    (d.tryPutAll (.lastIn q) (d.children c)).HasLooseText p ↔ d.HasLooseText p := by
  have hchildren (n) (hn : n ∈ d.children c) : d.isAllocated n := h.isAllocated_child hn
  refine h.hasLooseText_of_moved (h.tryPutAll hchildren hq) (data?_tryPutAll d _ _) fun m text _ => ?_
  rcases parent?_tryPutAll (p := q) hchildren m with hsame | ⟨hm, hmoved⟩
  · rw [hsame]
  · rw [hmoved, h.parent?_eq_some_iff.2 hm]
    exact iff_of_false (fun heq => hpq (Option.some.inj heq).symm) fun heq => hpc (Option.some.inj heq).symm

/-! New nodes. -/

theorem hasLooseText_create (kind : Kind) (space : Namespace) :
    (d.create kind space).1.HasLooseText p ↔ d.HasLooseText p := by
  have hadds := h.adds_create kind space
  by_cases hp : p < d.fresh
  · have hsame (m) (hm : m ∈ d.children p) : (d.create kind space).1.text? m = d.text? m :=
      text?_congr (hadds.grows.toExtends.data? m (lt_fresh (h.isAllocated_child hm)))
    rw [HasLooseText, HasLooseText, hadds.grows.children_of_lt hp]
    exact exists_congr fun m => and_congr_right fun hm => by rw [hsame m hm]
  · have hnone : d.children p = [] := by rw [children, node?_of_le (Nat.le_of_not_lt hp)]; rfl
    have hnew : (d.create kind space).1.children p = [] := by
      rw [children, create, node?_add]
      split
      · rfl
      · rw [node?_of_le (Nat.le_of_not_lt hp)]
        rfl
    simp [HasLooseText, hnone, hnew]

theorem hasLooseText_put_text (ht : d.text? t = some text) (hallocated : d.isAllocated t)
    (hp : d.Has (.lastIn p)) (haccepted : d.refusal? (.lastIn p) t = none) :
    (d.put (.lastIn p) t).HasLooseText p ↔ d.HasLooseText p ∨ ¬ IsLayout text := by
  have hsame (m) : (d.put (.lastIn p) t).text? m = d.text? m := text?_congr (data?_put d _ t m)
  have hparent := parent?_put hallocated (show (Spot.lastIn p).parent? d = some p from rfl)
  rw [h.hasLooseText_iff, (h.put hallocated hp haccepted).hasLooseText_iff]
  constructor
  · rintro ⟨m, more, hm, hmore, hloose⟩
    rw [hparent] at hm
    rw [hsame] at hmore
    split at hm
    · rename_i heq
      obtain rfl := Option.some.inj (ht.symm.trans (heq ▸ hmore))
      exact .inr hloose
    · exact .inl ⟨m, more, hm, hmore, hloose⟩
  · rintro (⟨m, more, hm, hmore, hloose⟩ | hloose)
    · refine ⟨m, more, ?_, (hsame m).trans hmore, hloose⟩
      rw [hparent]
      split
      · rfl
      · exact hm
    · exact ⟨t, text, (hparent t).trans (if_pos rfl), (hsame t).trans ht, hloose⟩

theorem hasLooseText_tryPut_text (ht : d.text? t = some text) (htop : d.parent? t = none)
    (hallocated : d.isAllocated t) (hq : d.isAllocated q)
    (haccepted : p = q → d.refusal? (.lastIn q) t = none) :
    (d.tryPut (.lastIn q) t).HasLooseText p ↔ d.HasLooseText p ∨ p = q ∧ ¬ IsLayout text := by
  by_cases hpq : p = q
  · subst hpq
    rw [tryPut_of_eq_none (haccepted rfl), h.hasLooseText_put_text ht hallocated hq (haccepted rfl)]
    simp
  · simp only [hpq, false_and, or_false]
    refine h.hasLooseText_of_moved (h.tryPut hallocated hq) (data?_tryPut d _ t) fun m _ _ => ?_
    by_cases hm : m = t
    · subst hm
      have hother : (d.tryPut (.lastIn q) m).parent? m ≠ some p := by
        rw [Document.tryPut]
        split
        · simp [htop]
        · rw [parent?_put hallocated rfl, if_pos rfl]
          exact fun heq => hpq (Option.some.inj heq).symm
      exact iff_of_false hother (by simp [htop])
    · rw [parent?_tryPut_of_ne hallocated hm]

theorem hasLooseText_putText (hq : d.isAllocated q) (hleaf : ¬ d.isLeaf p) :
    (d.putText (.lastIn q) text).HasLooseText p ↔ d.HasLooseText p ∨ p = q ∧ ¬ IsLayout text := by
  have hadds := h.adds_create (.text text) .html
  obtain ⟨-, hallocated⟩ := hadds.of_mem _ List.mem_cons_self
  have hmore := hadds.grows.toExtends
  have hnode : (d.create (.text text)).1.node? d.fresh = some { kind := .text text } := by
    rw [create, node?_add, if_pos rfl]
  have ht : (d.create (.text text)).1.text? d.fresh = some text := by rw [text?, kind?, hnode]; rfl
  have htop : (d.create (.text text)).1.parent? d.fresh = none := by rw [Document.parent?, hnode]; rfl
  have haccepted (hpq : p = q) : (d.create (.text text)).1.refusal? (.lastIn q) d.fresh = none := by
    subst hpq
    refine refusal?_eq_none_iff.2 ⟨p, rfl, .inr (accepts_iff.2 ⟨?_, fun hlies => ?_⟩)⟩
    · rw [hmore.isLeaf_iff hq]
      exact hleaf
    · exact Nat.not_le_of_lt (lt_fresh hq) (hadds.grows.le_of_liesIn hlies (Nat.le_refl _))
  refine (hadds.wellFormed.hasLooseText_tryPut_text ht htop hallocated (hmore.isAllocated hq)
    haccepted).trans ?_
  rw [h.hasLooseText_create]

theorem hasLooseText_appendText_of_text (hq : d.isAllocated q) (hlast : d.lastChild? q = some last)
    (hold : d.text? last = some old) :
    (d.appendText q text).HasLooseText p ↔ d.HasLooseText p ∨ p = q ∧ ¬ IsLayout text := by
  have hlastq : d.parent? last = some q := h.parent?_eq_some_iff.2 (List.mem_of_getLast? hlast)
  have hviews (m) := appendText_of_text text hlast hold m
  have htext (m) : (d.appendText q text).text? m =
      if m = last then some (old ++ text) else d.text? m := by
    rw [text?, (hviews m).2]
    split <;> rfl
  rw [h.hasLooseText_iff, (h.appendText hq text).1.hasLooseText_iff]
  simp only [(hviews _).1, htext]
  constructor
  · rintro ⟨m, more, hm, hmore, hloose⟩
    split at hmore
    · rename_i heq
      subst heq
      obtain rfl := Option.some.inj hmore
      obtain rfl := Option.some.inj (hlastq.symm.trans hm)
      by_cases hlayout : IsLayout old
      · exact .inr ⟨rfl, fun htext => hloose (Markup.isLayout_append.2 ⟨hlayout, htext⟩)⟩
      · exact .inl ⟨m, old, hm, hold, hlayout⟩
    · exact .inl ⟨m, more, hm, hmore, hloose⟩
  · rintro (⟨m, more, hm, hmore, hloose⟩ | ⟨rfl, hloose⟩)
    · by_cases heq : m = last
      · subst heq
        obtain rfl := Option.some.inj (hold.symm.trans hmore)
        exact ⟨m, _, hm, if_pos rfl, fun hall => hloose (Markup.isLayout_append.1 hall).1⟩
      · exact ⟨m, more, hm, (if_neg heq).trans hmore, hloose⟩
    · exact ⟨last, _, hlastq, if_pos rfl, fun hall => hloose (Markup.isLayout_append.1 hall).2⟩

theorem hasLooseText_appendText (hq : d.isAllocated q) (hleaf : ¬ d.isLeaf p) :
    (d.appendText q text).HasLooseText p ↔ d.HasLooseText p ∨ p = q ∧ ¬ IsLayout text := by
  have hnew : (d.putText (.lastIn q) text).HasLooseText p ↔ d.HasLooseText p ∨ p = q ∧ ¬ IsLayout text :=
    h.hasLooseText_putText hq hleaf
  cases hlast : d.lastChild? q with
  | none =>
    simp only [Document.appendText, hlast]
    exact hnew
  | some last =>
    cases hold : d.text? last with
    | none =>
      simp only [Document.appendText, hlast, hold]
      exact hnew
    | some old => exact h.hasLooseText_appendText_of_text hq hlast hold

end WellFormed
end Document
end DomQuery
