import DomQuery.Proofs.Markup.Marks
import DomQuery.Proofs.Markup.Nesting
import Mathlib.Data.List.Infix

/-!
The end of a script. Each text of a script is guarded for itself, and no mark that ends the element is left
in it. The texts are written one behind the other, though, so a mark that begins in one of them and ends in
a later one is not seen; these marks, and those in names of attributes, are the only ones that stand before
the end tag.
-/
namespace DomQuery

namespace Render
open Readable

variable {c sep : Char} {mark x y r s t u cs name : List Char} {texts : List (List Char)}

/-- What a reader takes for the end of a script, whatever the case of its letters. -/
def IsScriptEnd (mark : List Char) : Prop := mark.map Char.toLower = "</script".toList

instance (mark : List Char) : Decidable (IsScriptEnd mark) :=
  inferInstanceAs (Decidable (mark.map Char.toLower = "</script".toList))

def HoldsScriptEnd (cs : List Char) : Prop := ∃ mark, IsScriptEnd mark ∧ mark <:+: cs

/-- A mark begins in one of the texts and ends in a later one. -/
def SpreadsScriptEnd (texts : List (List Char)) : Prop :=
  ∃ before first middle last after x y, texts = before ++ first :: (middle ++ last :: after) ∧
    x ≠ [] ∧ y ≠ [] ∧ x <:+ first ∧ y <+: last ∧ IsScriptEnd (x ++ middle.flatten ++ y)

/-! The mark. -/

theorem eq_of_toLower_eq (h : c.toLower = '<') : c = '<' := by
  unfold Char.toLower at h
  split at h
  · rename_i hcapital
    have hval := congrArg (·.val.toNat) h
    simp [UInt32.le_iff_toNat_le] at hcapital hval
    omega
  · exact h

theorem IsScriptEnd.length (h : IsScriptEnd mark) : mark.length = 8 := by
  simpa using congrArg List.length h

theorem IsScriptEnd.exists_cons (h : IsScriptEnd mark) : ∃ name, mark = '<' :: name ∧ '<' ∉ name := by
  cases mark with
  | nil => cases h
  | cons c name =>
    obtain ⟨hc, hname⟩ := List.cons.inj (h.trans (show _ = '<' :: "/script".toList from rfl))
    obtain rfl := eq_of_toLower_eq hc
    refine ⟨name, rfl, fun hmem => ?_⟩
    exact absurd (hname ▸ List.mem_map_of_mem hmem) (by decide)

theorem IsScriptEnd.not_mem_of_append (h : IsScriptEnd (x ++ y)) (hx : x ≠ []) : '<' ∉ y := by
  obtain ⟨name, heq, hname⟩ := h.exists_cons
  obtain ⟨c, x, rfl⟩ := List.exists_cons_of_ne_nil hx
  obtain ⟨-, rfl⟩ := List.cons.inj heq
  exact fun hmem => hname (List.mem_append_right x hmem)

theorem IsScriptEnd.prefix_of_append_lt (h : IsScriptEnd mark) (hx : x ≠ [])
    (hbegins : mark <+: x ++ '<' :: t) : mark <+: x := by
  obtain hin | ⟨rest, rfl⟩ := List.prefix_or_prefix_of_prefix hbegins (List.prefix_append x _)
  · exact hin
  · obtain rfl | ⟨rest, rfl, -⟩ :=
      List.prefix_cons_iff.1 ((List.prefix_append_right_inj x).1 hbegins)
    · rw [List.append_nil]
    · exact absurd List.mem_cons_self (h.not_mem_of_append hx)

theorem IsScriptEnd.not_mem (h : IsScriptEnd mark) (hsep : sep.toLower ∉ "</script".toList) :
    sep ∉ mark := fun hmem => hsep (h ▸ List.mem_map_of_mem hmem)

theorem startsScriptEnd_iff : startsScriptEnd cs ↔ ∃ mark, IsScriptEnd mark ∧ mark <+: cs := by
  rw [startsScriptEnd, beq_iff_eq]
  refine ⟨fun h => ⟨cs.take 8, h, List.take_prefix 8 cs⟩, ?_⟩
  rintro ⟨mark, hmark, rest, rfl⟩
  rw [List.take_left' hmark.length]
  exact hmark

theorem holdsScriptEnd_iff : HoldsScriptEnd cs ↔ ∃ t ∈ cs.tails, startsScriptEnd t := by
  simp only [HoldsScriptEnd, startsScriptEnd_iff, List.mem_tails, List.infix_iff_prefix_suffix]
  constructor
  · rintro ⟨mark, hmark, t, hstart, hend⟩
    exact ⟨t, hend, mark, hmark, hstart⟩
  · rintro ⟨t, hend, mark, hmark, hstart⟩
    exact ⟨mark, hmark, t, hstart, hend⟩

instance (cs : List Char) : Decidable (HoldsScriptEnd cs) := decidable_of_iff _ holdsScriptEnd_iff.symm

theorem holdsScriptEnd_cons_iff :
    HoldsScriptEnd (c :: cs) ↔ startsScriptEnd (c :: cs) ∨ HoldsScriptEnd cs := by
  simp only [holdsScriptEnd_iff, List.tails_cons, List.mem_cons, exists_eq_or_imp]

theorem not_holdsScriptEnd_nil : ¬ HoldsScriptEnd [] := by decide

theorem lt_of_startsScriptEnd (h : startsScriptEnd (c :: cs)) : c = '<' := by
  obtain ⟨mark, hmark, hbegins⟩ := startsScriptEnd_iff.1 h
  obtain ⟨name, rfl, -⟩ := hmark.exists_cons
  exact (List.cons_prefix_cons.1 hbegins).1.symm

theorem holdsScriptEnd_append_of_not_mem (hx : '<' ∉ x) : HoldsScriptEnd (x ++ r) ↔ HoldsScriptEnd r := by
  induction x with
  | nil => rfl
  | cons c x ih =>
    rw [List.mem_cons, not_or] at hx
    obtain ⟨hc, hx⟩ := hx
    rw [List.cons_append, holdsScriptEnd_cons_iff, ih hx]
    exact or_iff_right fun hstart => hc (lt_of_startsScriptEnd hstart).symm

theorem holdsScriptEnd_append_cons (hsep : sep.toLower ∉ "</script".toList) :
    HoldsScriptEnd (x ++ sep :: r) ↔ HoldsScriptEnd x ∨ HoldsScriptEnd r := by
  constructor
  · rintro ⟨mark, hmark, hinfix⟩
    obtain hx | hr | ⟨front, back, rfl, hfront, hback⟩ := List.infix_append_iff.1 hinfix
    · exact .inl ⟨mark, hmark, hx⟩
    · obtain hbegins | hr := List.infix_cons_iff.1 hr
      · obtain rfl | ⟨name, rfl, -⟩ := List.prefix_cons_iff.1 hbegins
        · exact absurd hmark (by decide)
        · exact absurd List.mem_cons_self (hmark.not_mem hsep)
      · exact .inr ⟨mark, hmark, hr⟩
    · obtain rfl | ⟨name, rfl, -⟩ := List.prefix_cons_iff.1 hback
      · rw [List.append_nil] at hmark
        exact .inl ⟨front, hmark, hfront.isInfix⟩
      · exact absurd (by simp) (hmark.not_mem hsep)
  · rintro (⟨mark, hmark, hx⟩ | ⟨mark, hmark, hr⟩)
    · exact ⟨mark, hmark, hx.trans (List.prefix_append x _).isInfix⟩
    · exact ⟨mark, hmark, hr.trans ((List.suffix_cons sep r).trans (List.suffix_append x _)).isInfix⟩

/-! Guarded texts. -/

theorem guardScript_of_startsScriptEnd (h : startsScriptEnd (c :: cs)) :
    guardScript 0 (c :: cs) = "<\\/script".toList ++ guardScript 7 cs := by
  rw [guardScript, if_pos h]

theorem guardScript_of_not (h : ¬ startsScriptEnd (c :: cs)) :
    guardScript 0 (c :: cs) = c :: guardScript 0 cs := by
  rw [guardScript, if_neg h]

theorem guardScript_append_of_not_mem (hx : '<' ∉ x) :
    guardScript 0 (x ++ t) = x ++ guardScript 0 t := by
  induction x with
  | nil => rfl
  | cons c x ih =>
    rw [List.mem_cons, not_or] at hx
    rw [List.cons_append, guardScript_of_not fun h => hx.1 (lt_of_startsScriptEnd h).symm, ih hx.2,
      List.cons_append]

theorem guardScript_of_not_mem (hx : '<' ∉ x) : guardScript 0 x = x := by
  rw [← List.append_nil x, guardScript_append_of_not_mem hx]
  rfl

/-- A `<` ends every mark that began before it, so guarding starts anew there. -/
theorem guardScript_append_lt {skip : Nat} (hskip : skip ≤ x.length) :
    guardScript skip (x ++ '<' :: t) = guardScript skip x ++ guardScript 0 ('<' :: t) := by
  induction x generalizing skip with
  | nil =>
    obtain rfl := Nat.le_zero.1 hskip
    rfl
  | cons c x ih =>
    cases skip with
    | succ skip => exact ih (Nat.le_of_succ_le_succ hskip)
    | zero =>
      by_cases hstart : startsScriptEnd (c :: (x ++ '<' :: t))
      · obtain ⟨mark, hmark, hbegins⟩ := startsScriptEnd_iff.1 hstart
        have hin : mark <+: c :: x := hmark.prefix_of_append_lt (List.cons_ne_nil c x) hbegins
        have hlength := hin.length_le
        rw [hmark.length] at hlength
        rw [List.cons_append, guardScript_of_startsScriptEnd hstart,
          guardScript_of_startsScriptEnd (startsScriptEnd_iff.2 ⟨mark, hmark, hin⟩),
          ih (Nat.le_of_succ_le_succ hlength),
          List.append_assoc]
      · have hstart' : ¬ startsScriptEnd (c :: x) := by
          rw [startsScriptEnd_iff] at hstart ⊢
          rintro ⟨mark, hmark, hbegins⟩
          exact hstart ⟨mark, hmark, hbegins.trans (List.prefix_append (c :: x) _)⟩
        rw [List.cons_append, guardScript_of_not hstart, guardScript_of_not hstart', ih (Nat.zero_le _),
          List.cons_append]

theorem prefix_guardScript_append (hname : '<' ∉ name) (h : name <+: guardScript 0 t ++ r) :
    name <+: t ∨ ∃ y, name = t ++ y ∧ y <+: r := by
  induction t generalizing name with
  | nil => exact .inr ⟨name, rfl, h⟩
  | cons c t ih =>
    cases name with
    | nil => exact .inl List.nil_prefix
    | cons b name =>
      rw [List.mem_cons, not_or] at hname
      by_cases hstart : startsScriptEnd (c :: t)
      · rw [guardScript_of_startsScriptEnd hstart] at h
        exact absurd (List.cons_prefix_cons.1 h).1 (Ne.symm hname.1)
      · rw [guardScript_of_not hstart, List.cons_append] at h
        obtain ⟨rfl, htail⟩ := List.cons_prefix_cons.1 h
        obtain hin | ⟨y, rfl, hy⟩ := ih hname.2 htail
        · exact .inl (List.cons_prefix_cons.2 ⟨rfl, hin⟩)
        · exact .inr ⟨y, rfl, hy⟩

/-- A mark in a guarded text with something behind it stands in what is behind, or begins in the text and
ends behind it. -/
theorem holdsScriptEnd_guardScript_append {skip : Nat} (h : HoldsScriptEnd (guardScript skip t ++ r)) :
    HoldsScriptEnd r ∨ ∃ x y, x ≠ [] ∧ y ≠ [] ∧ x <:+ t ∧ y <+: r ∧ IsScriptEnd (x ++ y) := by
  induction t generalizing skip with
  | nil =>
    rw [guardScript] at h
    exact .inl h
  | cons c t ih =>
    have hlater {skip : Nat} (h : HoldsScriptEnd (guardScript skip t ++ r)) :
        HoldsScriptEnd r ∨ ∃ x y, x ≠ [] ∧ y ≠ [] ∧ x <:+ c :: t ∧ y <+: r ∧ IsScriptEnd (x ++ y) := by
      refine (ih h).imp_right fun ⟨x, y, hx, hy, hsuffix, hrest⟩ => ?_
      exact ⟨x, y, hx, hy, hsuffix.trans (List.suffix_cons c t), hrest⟩
    cases skip with
    | succ skip => exact hlater h
    | zero =>
      by_cases hstart : startsScriptEnd (c :: t)
      · rw [guardScript_of_startsScriptEnd hstart] at h
        have hseparated : HoldsScriptEnd (['<'] ++ '\\' :: ("/script".toList ++ (guardScript 7 t ++ r))) := h
        have hbehind := ((holdsScriptEnd_append_cons (by decide)).1 hseparated).resolve_left (by decide)
        exact hlater ((holdsScriptEnd_append_of_not_mem (by decide)).1 hbehind)
      · rw [guardScript_of_not hstart, List.cons_append] at h
        obtain hhere | h := holdsScriptEnd_cons_iff.1 h
        · -- the mark begins with `c`, and the text is too short for it
          obtain ⟨mark, hmark, hbegins⟩ := startsScriptEnd_iff.1 hhere
          obtain ⟨name, rfl, hname⟩ := hmark.exists_cons
          obtain ⟨rfl, htail⟩ := List.cons_prefix_cons.1 hbegins
          have hout : ¬ name <+: t := fun hin =>
            hstart (startsScriptEnd_iff.2 ⟨_, hmark, List.cons_prefix_cons.2 ⟨rfl, hin⟩⟩)
          obtain ⟨y, rfl, hy⟩ := (prefix_guardScript_append hname htail).resolve_left hout
          refine .inr ⟨'<' :: t, y, List.cons_ne_nil _ _, ?_, List.suffix_rfl, hy, hmark⟩
          rintro rfl
          exact hout (by rw [List.append_nil])
        · exact hlater h

theorem not_holdsScriptEnd_guardScript (t : List Char) : ¬ HoldsScriptEnd (guardScript 0 t) := by
  intro h
  rw [← List.append_nil (guardScript 0 t)] at h
  obtain h | ⟨x, y, -, hy, -, hbegins, -⟩ := holdsScriptEnd_guardScript_append h
  · exact not_holdsScriptEnd_nil h
  · exact hy (List.prefix_nil.1 hbegins)

/-! Texts one behind the other. -/

theorem prefix_flatMap_guardScript (hy : y ≠ []) (hname : '<' ∉ y)
    (h : y <+: texts.flatMap (guardScript 0)) :
    ∃ middle last after z, texts = middle ++ last :: after ∧ z ≠ [] ∧ z <+: last ∧
      y = middle.flatten ++ z := by
  induction texts generalizing y with
  | nil => exact absurd (List.prefix_nil.1 h) hy
  | cons t texts ih =>
    rw [List.flatMap_cons] at h
    obtain hin | ⟨z, rfl, hz⟩ := prefix_guardScript_append hname h
    · exact ⟨[], t, texts, y, rfl, hy, hin, rfl⟩
    · by_cases hnil : z = []
      · subst hnil
        rw [List.append_nil] at hy ⊢
        exact ⟨[], t, texts, t, rfl, hy, List.prefix_rfl, rfl⟩
      · obtain ⟨middle, last, after, z, rfl, hne, hlast, rfl⟩ :=
          ih hnil (fun hmem => hname (List.mem_append_right t hmem)) hz
        exact ⟨t :: middle, last, after, z, rfl, hne, hlast, by rw [List.flatten_cons, List.append_assoc]⟩

theorem spreadsScriptEnd_of_holdsScriptEnd (h : HoldsScriptEnd (texts.flatMap (guardScript 0))) :
    SpreadsScriptEnd texts := by
  induction texts with
  | nil => exact absurd h not_holdsScriptEnd_nil
  | cons t texts ih =>
    rw [List.flatMap_cons] at h
    obtain h | ⟨x, y, hx, hy, hsuffix, hbegins, hmark⟩ := holdsScriptEnd_guardScript_append h
    · obtain ⟨before, first, middle, last, after, x, y, rfl, hrest⟩ := ih h
      exact ⟨t :: before, first, middle, last, after, x, y, rfl, hrest⟩
    · have hname := hmark.not_mem_of_append hx
      obtain ⟨middle, last, after, z, rfl, hz, hlast, rfl⟩ := prefix_flatMap_guardScript hy hname hbegins
      exact ⟨[], t, middle, last, after, x, z, rfl, hx, hz, hsuffix, hlast,
        by rwa [List.append_assoc]⟩

/-- Since the only `<` of a mark is its first character, the pieces of a mark are written as they are. -/
theorem holdsScriptEnd_of_spreadsScriptEnd (h : SpreadsScriptEnd texts) :
    HoldsScriptEnd (texts.flatMap (guardScript 0)) := by
  obtain ⟨before, first, middle, last, after, x, y, rfl, hx, hy, ⟨u, rfl⟩, ⟨v, rfl⟩, hmark⟩ := h
  have hlength := hmark.length
  obtain ⟨name, heq, hname⟩ := hmark.exists_cons
  obtain ⟨b, x, rfl⟩ := List.exists_cons_of_ne_nil hx
  obtain ⟨rfl, rfl⟩ := List.cons.inj heq
  obtain ⟨⟨hnotx, hnotmiddle⟩, hnoty⟩ : ('<' ∉ x ∧ '<' ∉ middle.flatten) ∧ '<' ∉ y := by
    rwa [← not_or, ← List.mem_append, ← not_or, ← List.mem_append]
  have hshort : ¬ startsScriptEnd ('<' :: x) := by
    rw [startsScriptEnd_iff]
    rintro ⟨mark, hmark', hbegins⟩
    have hle := hmark'.length ▸ hbegins.length_le
    have hpos := List.length_pos_iff.2 hy
    rw [List.length_append, List.length_append] at hlength
    omega
  have hfirst : guardScript 0 (u ++ '<' :: x) = guardScript 0 u ++ '<' :: x := by
    rw [guardScript_append_lt (Nat.zero_le _), guardScript_of_not hshort, guardScript_of_not_mem hnotx]
  have hmiddle : middle.flatMap (guardScript 0) = middle.flatten := by
    rw [List.flatMap_def, List.map_congr_left (g := id), List.map_id]
    exact fun t ht => guardScript_of_not_mem fun hmem => hnotmiddle (List.mem_flatten.2 ⟨t, ht, hmem⟩)
  refine ⟨_, hmark, before.flatMap (guardScript 0) ++ guardScript 0 u,
    guardScript 0 v ++ after.flatMap (guardScript 0), ?_⟩
  simp only [List.flatMap_append, List.flatMap_cons, hfirst, hmiddle,
    guardScript_append_of_not_mem hnoty, List.append_assoc, List.cons_append]

theorem holdsScriptEnd_flatMap_iff :
    HoldsScriptEnd (texts.flatMap (guardScript 0)) ↔ SpreadsScriptEnd texts :=
  ⟨spreadsScriptEnd_of_holdsScriptEnd, holdsScriptEnd_of_spreadsScriptEnd⟩

/-! Tags. -/

theorem not_holdsScriptEnd_of_length_lt (h : cs.length < 8) : ¬ HoldsScriptEnd cs := by
  rintro ⟨mark, hmark, hinfix⟩
  have hlength := hinfix.length_le
  rw [hmark.length] at hlength
  exact Nat.not_le.2 h hlength

theorem not_holdsScriptEnd_of_not_mem (h : '<' ∉ cs) : ¬ HoldsScriptEnd cs := by
  have hnil := holdsScriptEnd_append_of_not_mem (r := []) h
  rw [List.append_nil] at hnil
  exact fun hcs => not_holdsScriptEnd_nil (hnil.1 hcs)

theorem lt_not_mem_escapeValueChar (c : Char) : '<' ∉ escapeValueChar c := by
  unfold escapeValueChar
  split
  · simp
  · exact not_mem_escapeChar c

theorem holdsScriptEnd_append_attributesMarkup {attributes : Entries String} :
    HoldsScriptEnd (x ++ attributesMarkup attributes) ↔
      HoldsScriptEnd x ∨ ∃ a ∈ attributes, HoldsScriptEnd a.1.toList := by
  induction attributes generalizing x with
  | nil => simp [attributesMarkup]
  | cons a attributes ih =>
    obtain ⟨name, value⟩ := a
    have hvalue : ¬ HoldsScriptEnd ('"' :: value.toList.flatMap escapeValueChar) := by
      refine not_holdsScriptEnd_of_not_mem ?_
      simp [lt_not_mem_escapeValueChar]
    have hcut : attributesMarkup ((name, value) :: attributes) =
        ' ' :: (name.toList ++ '=' :: ('"' :: value.toList.flatMap escapeValueChar ++
          '"' :: attributesMarkup attributes)) := by
      simpa using attributesMarkup_cons_append name value attributes []
    have hrest := ih (x := [])
    rw [List.nil_append] at hrest
    rw [hcut, holdsScriptEnd_append_cons (by decide), holdsScriptEnd_append_cons (by decide),
      holdsScriptEnd_append_cons (by decide), hrest, or_iff_right hvalue,
      or_iff_right not_holdsScriptEnd_nil]
    simp only [List.mem_cons, exists_eq_or_imp]

theorem asciiLowercase_of_isScript {tag : String} (h : Markup.isScript tag) :
    Text.asciiLowercase tag = "script" := by
  simpa [Markup.isScript, Markup.isOneOf] using h

theorem toLower_of_isScript {tag : String} (h : Markup.isScript tag) :
    tag.toList.map Char.toLower = "script".toList := by
  rw [← asciiLowercase_of_isScript h, Text.asciiLowercase, String.toList_ofList]

theorem not_isVoid_of_isScript {tag : String} (h : Markup.isScript tag) : ¬ Markup.isVoid tag := by
  rw [Markup.isVoid, Markup.isOneOf, asciiLowercase_of_isScript h]
  decide

theorem styleIn_of_isScript {tag : String} (h : Markup.isScript tag) : styleIn {} (some tag) = .script := by
  simp [styleIn, Markup.isRawText, Markup.isOneOf, asciiLowercase_of_isScript h, h]

theorem isScriptEnd_endTag {tag : String} (h : Markup.isScript tag) : IsScriptEnd ("</" ++ tag).toList := by
  rw [IsScriptEnd, String.toList_append, List.map_append, toLower_of_isScript h]
  rfl

theorem holdsScriptEnd_openTag_append {e : Element} (hscript : Markup.isScript e.tag) :
    HoldsScriptEnd ((openTag {} e).toList ++ r) ↔
      (∃ a ∈ e.attributes, HoldsScriptEnd a.1.toList) ∨ HoldsScriptEnd r := by
  have htag : ¬ HoldsScriptEnd ('<' :: e.tag.toList) := by
    refine not_holdsScriptEnd_of_length_lt ?_
    rw [List.length_cons, ← List.length_map Char.toLower, toLower_of_isScript hscript]
    decide
  have hcut : (openTag {} e).toList ++ r =
      '<' :: e.tag.toList ++ attributesMarkup e.attributes ++ '>' :: r := by
    simp [toList_openTag]
  rw [hcut, holdsScriptEnd_append_cons (by decide), holdsScriptEnd_append_attributesMarkup,
    or_iff_right htag]

theorem forall_length_le_iff : (∀ before mark after, x ++ '<' :: t = before ++ (mark ++ after) →
    IsScriptEnd mark → x.length ≤ before.length) ↔ ¬ HoldsScriptEnd x := by
  constructor
  · rintro h ⟨mark, hmark, before, after, rfl⟩
    have hle := h before mark (after ++ '<' :: t) (by simp) hmark
    have hlength := hmark.length
    simp only [List.length_append] at hle
    omega
  · intro h before mark after heq hmark
    by_contra hlt
    obtain ⟨y, rfl⟩ : before <+: x :=
      List.prefix_of_prefix_length_le (heq ▸ List.prefix_append before _) (List.prefix_append x _)
        (Nat.le_of_not_le hlt)
    rw [List.append_assoc, List.append_cancel_left_eq] at heq
    have hy : y ≠ [] := by
      rintro rfl
      simp at hlt
    have hin := hmark.prefix_of_append_lt hy (heq ▸ List.prefix_append mark after)
    exact h ⟨mark, hmark, hin.isInfix.trans (List.suffix_append before y).isInfix⟩

end Render

namespace Document
variable {d : Document} {n c : NodeId} {e : Element} {data : String} {texts : List String}

theorem kind?_of_text? {data : String} (h : d.text? n = some data) : d.kind? n = some (.text data) := by
  obtain ⟨kind, hkind, htext⟩ := Option.bind_eq_some_iff.1 h
  cases kind <;> cases htext
  exact hkind

theorem WellFormed.outerMarkup_in_script (h : d.WellFormed) (hkind : d.kind? n = some (.element e))
    (hscript : Markup.isScript e.tag) (hc : c ∈ d.children n) (htext : d.text? c = some data) :
    (d.outerMarkup c).toList = Render.guardScript 0 data.toList := by
  rw [h.outerMarkup_of_isLeaf (kind?_of_text? htext) rfl, Render.opening,
    h.parentTag?_of_mem_children hc, tag?, element?, hkind]
  exact (congrArg (fun style => (Render.text style data).toList) (Render.styleIn_of_isScript hscript)).trans
    String.toList_ofList

theorem WellFormed.innerMarkup_of_isScript (h : d.WellFormed) (hkind : d.kind? n = some (.element e))
    (hscript : Markup.isScript e.tag) (htexts : (d.children n).map d.text? = texts.map some) :
    (d.innerMarkup n).toList = (texts.map String.toList).flatMap (Render.guardScript 0) := by
  let written (text : Option String) : List Char :=
    (text.map fun data => Render.guardScript 0 data.toList).getD []
  have hwritten : ∀ c ∈ d.children n, (d.outerMarkup c).toList = written (d.text? c) := by
    intro c hc
    obtain ⟨data, -, hdata⟩ := List.mem_map.1 (htexts ▸ List.mem_map_of_mem hc)
    rw [h.outerMarkup_in_script hkind hscript hc hdata.symm, ← hdata]
    rfl
  calc
    (d.innerMarkup n).toList = (d.children n).flatMap fun c => (d.outerMarkup c).toList := by
      rw [innerMarkup_eq_join, String.toList_join, List.flatMap_map]
    _ = ((d.children n).map d.text?).flatMap written := by
      rw [List.flatMap_map, List.flatMap_congr hwritten]
    _ = (texts.map String.toList).flatMap (Render.guardScript 0) := by
      rw [htexts, List.flatMap_map, List.flatMap_map]
      rfl

/-- When a script whose children are texts is closed early. Each text alone is written without a mark, so
one stands in the markup inside exactly if it goes from one text to a later one. No mark stands in front of
the end tag exactly if moreover no attribute has one in its name; values are escaped. -/
theorem script_closed_by_endTag_iff (d : Document) (h : d.WellFormed) (n : NodeId) (e : Element)
    (texts : List String) (hkind : d.kind? n = some (.element e)) (hscript : Markup.isScript e.tag)
    (htexts : (d.children n).map d.text? = texts.map some) :
    let content := texts.map String.toList
    let front := Render.openTag {} e ++ d.innerMarkup n
    (∀ c ∈ d.children n, ¬ Render.HoldsScriptEnd (d.outerMarkup c).toList) ∧
    (Render.HoldsScriptEnd (d.innerMarkup n).toList ↔ Render.SpreadsScriptEnd content) ∧
    d.outerMarkup n = front ++ ("</" ++ e.tag ++ ">") ∧
    Render.IsScriptEnd ("</" ++ e.tag).toList ∧
    ((∀ before mark after, (d.outerMarkup n).toList = before ++ (mark ++ after) → Render.IsScriptEnd mark →
        front.toList.length ≤ before.length) ↔
      ¬ Render.SpreadsScriptEnd content ∧ ∀ a ∈ e.attributes, ¬ Render.HoldsScriptEnd a.1.toList) := by
  intro content front
  have hinner : Render.HoldsScriptEnd (d.innerMarkup n).toList ↔ Render.SpreadsScriptEnd content := by
    rw [h.innerMarkup_of_isScript hkind hscript htexts, Render.holdsScriptEnd_flatMap_iff]
  have houter : d.outerMarkup n = front ++ ("</" ++ e.tag ++ ">") := by
    rw [h.outerMarkup_of_kind? hkind, Render.opening, Render.closing, Render.endTag,
      if_neg (Render.not_isVoid_of_isScript hscript)]
  refine ⟨fun c hc => ?_, hinner, houter, Render.isScriptEnd_endTag hscript, ?_⟩
  · obtain ⟨data, -, hdata⟩ := List.mem_map.1 (htexts ▸ List.mem_map_of_mem hc)
    rw [h.outerMarkup_in_script hkind hscript hc hdata.symm]
    exact Render.not_holdsScriptEnd_guardScript data.toList
  · have hend : (d.outerMarkup n).toList = front.toList ++ '<' :: ('/' :: e.tag.toList ++ ['>']) := by
      rw [houter]
      simp
    simp only [hend]
    rw [Render.forall_length_le_iff, String.toList_append, Render.holdsScriptEnd_openTag_append hscript, hinner]
    simp only [not_or, not_exists, not_and, and_comm]

/-- Marks in one text and in a value, and pieces of marks that do not go on in the next text. -/
theorem script_closed_by_endTag_capitals :
    let e : Element := { tag := "SCRIPT", attributes := [("src", "</script")] }
    let texts := ["<</SCRIPT></sc", "t</scr", "</ipt>"]
    let d : Document := { slots := #[
      some { kind := .element e, children := [3, 1, 2] },
      some { kind := .text "t</scr", parent := some 0 },
      some { kind := .text "</ipt>", parent := some 0 },
      some { kind := .text "<</SCRIPT></sc", parent := some 0 }], roots := [0] }
    d.WellFormed ∧ d.kind? 0 = some (.element e) ∧ Markup.isScript e.tag ∧
      (d.children 0).map d.text? = texts.map some ∧
      d.innerMarkup 0 = "<<\\/script></sct</scr</ipt>" ∧
      ¬ Render.SpreadsScriptEnd (texts.map String.toList) ∧
      ∀ before mark after, (d.outerMarkup 0).toList = before ++ (mark ++ after) → Render.IsScriptEnd mark →
        (Render.openTag {} e ++ d.innerMarkup 0).toList.length ≤ before.length := by
  intro e texts d
  have h : d.WellFormed := by decide +kernel
  have hscript : Markup.isScript e.tag := by decide +kernel
  obtain ⟨-, hinner, -, -, hfirst⟩ := script_closed_by_endTag_iff d h 0 e texts rfl hscript rfl
  have hspread : ¬ Render.SpreadsScriptEnd (texts.map String.toList) :=
    fun hspread => absurd (hinner.2 hspread) (by decide +kernel)
  exact ⟨h, rfl, hscript, rfl, by decide +kernel, hspread,
    hfirst.2 ⟨hspread, by decide +kernel⟩⟩

/-- Each text is guarded for itself, so a mark cut in two is not seen. -/
theorem script_closed_by_adjacent_texts :
    let d : Document := { slots := #[
      some { kind := .element { tag := "script" }, children := [1, 2] },
      some { kind := .text "</scr", parent := some 0 },
      some { kind := .text "ipt>", parent := some 0 }], roots := [0] }
    let front := Render.openTag {} { tag := "script" } ++ d.innerMarkup 0
    d.WellFormed ∧ d.kind? 0 = some (.element { tag := "script" }) ∧ Markup.isScript "script" ∧
      (d.children 0).map d.text? = ["</scr", "ipt>"].map some ∧
      Render.HoldsScriptEnd (d.innerMarkup 0).toList ∧
      d.outerMarkup 0 = front ++ "</script>" ∧
      ∃ before mark after, (d.outerMarkup 0).toList = before ++ (mark ++ after) ∧
        Render.IsScriptEnd mark ∧ before.length < front.toList.length := by
  intro d front
  exact ⟨by decide +kernel, rfl, by decide +kernel, rfl, by decide +kernel, by decide +kernel,
    "<script>".toList, "</script".toList, "></script>".toList, by decide +kernel, by decide +kernel,
    by decide +kernel⟩

end Document
end DomQuery
