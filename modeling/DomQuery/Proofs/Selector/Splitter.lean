import DomQuery.Proofs.Selector.Spelling

/-!
The splitter as an automaton. What is open behind a text, and whether a backslash at its end hides the
next character, depends on the characters one by one; and no chain holds a comma where nothing is open
and nothing hides it, for there it would have been cut.
-/
namespace DomQuery.Selector
open Text

deriving instance DecidableEq for Nesting

/-- The splitter at some place of a text. -/
structure Splitter where
  nesting : Nesting := {}
  /-- A backslash hides the next character. -/
  escaped : Bool := false
  deriving DecidableEq

variable {s : Splitter} {n : Nesting} {c : Char} {cs ds text piece inside rest : List Char}
  {opening : Option Char} {closing : Char} {level : Nat} {string : Option Char}

namespace Splitter

def after (s : Splitter) (c : Char) : Splitter :=
  if s.escaped then ⟨s.nesting, false⟩
  else if c == '\\' then ⟨s.nesting, true⟩
  else ⟨s.nesting.after c, false⟩

def behind (s : Splitter) (text : List Char) : Splitter := text.foldl after s

@[simp]
theorem behind_nil (s : Splitter) : s.behind [] = s := rfl

@[simp]
theorem behind_cons (s : Splitter) (c : Char) (cs : List Char) :
    s.behind (c :: cs) = (s.after c).behind cs := rfl

theorem behind_append (s : Splitter) (cs ds : List Char) :
    s.behind (cs ++ ds) = (s.behind cs).behind ds := List.foldl_append

theorem after_escaped (n : Nesting) (c : Char) : after ⟨n, true⟩ c = ⟨n, false⟩ := rfl

theorem after_backslash (n : Nesting) : after ⟨n, false⟩ '\\' = ⟨n, true⟩ := rfl

theorem after_of_ne (hc : c ≠ '\\') : after ⟨n, false⟩ c = ⟨n.after c, false⟩ := by
  simp [after, hc]

theorem after_outer (hc : c ≠ '\\' ∧ c ≠ '[' ∧ c ≠ '(') : after {} c = {} := by
  obtain ⟨hslash, hbracket, hparenthesis⟩ := hc
  rw [after_of_ne hslash]
  simp [Nesting.after, hbracket, hparenthesis]

end Splitter

theorem Nesting.isOuter_iff : n.isOuter ↔ n = {} := by
  obtain ⟨opened, string⟩ := n
  simp [Nesting.isOuter]

/-! Pieces. -/

def Uncut : Splitter → List Char → Prop
  | _, [] => True
  | s, c :: cs => (c = ',' → s ≠ {}) ∧ Uncut (s.after c) cs

theorem uncut_append : Uncut s (cs ++ ds) ↔ Uncut s cs ∧ Uncut (s.behind cs) ds := by
  induction cs generalizing s with
  | nil => simp [Uncut]
  | cons c cs ih => simp [Uncut, ih, and_assoc]

/-- A cut leaves the splitter outside of everything, so only the first piece may begin elsewhere. -/
theorem uncut_splitOuter (n : Nesting) (cs : List Char) :
    ∃ first others, splitOuter n cs = first :: others ∧ Uncut ⟨n, false⟩ first ∧
      ∀ piece ∈ others, Uncut {} piece := by
  fun_induction splitOuter n cs with
  | case1 n => exact ⟨[], [], rfl, trivial, List.forall_mem_nil _⟩
  | case2 n => exact ⟨['\\'], [], rfl, ⟨by simp, trivial⟩, List.forall_mem_nil _⟩
  | case3 n c rest ih =>
    obtain ⟨first, others, hsplit, hfirst, hothers⟩ := ih
    rw [hsplit]
    refine ⟨'\\' :: c :: first, others, rfl, ⟨by simp, ?_, hfirst⟩, hothers⟩
    rw [Splitter.after_backslash]
    exact fun _ => by simp
  | case4 n c rest _ _ hcomma ih =>
    rw [Bool.and_eq_true, beq_iff_eq, Nesting.isOuter_iff] at hcomma
    obtain ⟨first, others, hsplit, hfirst, hothers⟩ := ih
    obtain rfl := hcomma.2
    rw [hsplit]
    exact ⟨[], first :: others, rfl, trivial, List.forall_mem_cons.2 ⟨hfirst, hothers⟩⟩
  | case5 n c rest hlast hpair hcomma ih =>
    obtain ⟨first, others, hsplit, hfirst, hothers⟩ := ih
    have hinner : c = ',' → (⟨n, false⟩ : Splitter) ≠ {} := by
      rintro rfl heq
      refine hcomma ?_
      rw [Bool.and_eq_true, Nesting.isOuter_iff]
      exact ⟨rfl, congrArg Splitter.nesting heq⟩
    rw [hsplit]
    refine ⟨c :: first, others, rfl, ⟨hinner, ?_⟩, hothers⟩
    rwa [Splitter.after_of_ne (ne_backslash hlast hpair)]

theorem behind_blanks (h : ∀ c ∈ cs, isBlank c) : ({} : Splitter).behind cs = {} := by
  induction cs with
  | nil => rfl
  | cons c cs ih =>
    obtain ⟨hc, hcs⟩ := List.forall_mem_cons.1 h
    have hc : c ≠ '\\' ∧ c ≠ '[' ∧ c ≠ '(' := by
      refine ⟨?_, ?_, ?_⟩ <;> rintro rfl <;> exact absurd hc (by decide)
    rw [Splitter.behind_cons, Splitter.after_outer hc, ih hcs]

theorem uncut_trim (h : Uncut {} cs) : Uncut {} (trim cs) := by
  have hleft : Uncut {} (trimLeft cs) := by
    rw [← List.takeWhile_append_dropWhile (p := isBlank) (l := cs), uncut_append,
      behind_blanks fun c hc => List.all_eq_true.1 List.all_takeWhile c hc] at h
    exact h.2
  obtain ⟨blanks, hblanks⟩ := isPrefix_trimRight (trimLeft cs)
  rw [← hblanks, uncut_append] at hleft
  exact hleft.1

theorem uncut_of_mem_chainTexts (h : piece ∈ chainTexts text) : Uncut {} piece := by
  obtain ⟨whole, hwhole, rfl⟩ := List.mem_map.1 (List.mem_filter.1 h).1
  obtain ⟨first, others, hsplit, hfirst, hothers⟩ := uncut_splitOuter {} text
  rw [hsplit] at hwhole
  exact uncut_trim ((List.forall_mem_cons.2 ⟨hfirst, hothers⟩) whole hwhole)

/-! Escapes and closed brackets. -/

theorem Escaped.behind (h : Escaped (fun c => n.after c = n) cs) :
    Splitter.behind ⟨n, false⟩ cs = ⟨n, false⟩ := by
  induction h with
  | nil => rfl
  | plain hc hne _ ih => rw [Splitter.behind_cons, Splitter.after_of_ne hne, hc, ih]
  | pair c _ ih =>
    rw [Splitter.behind_cons, Splitter.behind_cons, Splitter.after_backslash, Splitter.after_escaped, ih]

theorem Escaped.escaped_behind {plain : Char → Prop} (h : Escaped plain cs) (n : Nesting) :
    (Splitter.behind ⟨n, false⟩ cs).escaped = false := by
  induction h generalizing n with
  | nil => rfl
  | plain hc hne _ ih =>
    rw [Splitter.behind_cons, Splitter.after_of_ne hne]
    exact ih _
  | pair c _ ih => exact ih n

theorem escaped_of_enclosed
    (h : enclosed opening closing level string cs = .closed inside rest) :
    Escaped (fun _ => True) inside := by
  fun_induction enclosed opening closing level string cs generalizing inside with
  | case1 => simp at h
  | case2 => simp at h
  | case3 _ _ c _ ih =>
    obtain ⟨i, hi, rfl⟩ := Enclosure.push_eq_closed.1 h
    obtain ⟨j, hj, rfl⟩ := Enclosure.push_eq_closed.1 hi
    exact .pair c (ih hj)
  | case7 =>
    obtain ⟨rfl, -⟩ := Enclosure.closed.inj h
    exact .nil
  | case4 | case5 | case6 | case8 | case9 =>
    rename_i ih
    obtain ⟨i, hi, rfl⟩ := Enclosure.push_eq_closed.1 h
    exact .plain trivial (ne_backslash (by assumption) (by assumption)) (ih hi)

/-- Between square brackets the splitter and the scanner for the closing one do the same. -/
theorem behind_of_enclosed (h : enclosed opening closing level string cs = .closed inside rest)
    (hopening : opening = none) (hclosing : closing = ']') (hlevel : level = 0) :
    Splitter.behind ⟨⟨['['], string⟩, false⟩ inside = ⟨⟨['['], none⟩, false⟩ := by
  fun_induction enclosed opening closing level string cs generalizing inside with
  | case1 => simp at h
  | case2 => simp at h
  | case3 _ _ c _ ih =>
    obtain ⟨i, hi, rfl⟩ := Enclosure.push_eq_closed.1 h
    obtain ⟨j, hj, rfl⟩ := Enclosure.push_eq_closed.1 hi
    rw [Splitter.behind_cons, Splitter.behind_cons, Splitter.after_backslash, Splitter.after_escaped]
    exact ih hj hlevel
  | case4 _ q c _ hlast hpair ih =>
    obtain ⟨i, hi, rfl⟩ := Enclosure.push_eq_closed.1 h
    have hafter : Nesting.after ⟨['['], some q⟩ c = ⟨['['], if c == q then none else some q⟩ := by
      simp only [Nesting.after]
      split <;> rfl
    rw [Splitter.behind_cons, Splitter.after_of_ne (ne_backslash hlast hpair), hafter]
    exact ih hi hlevel
  | case5 _ c _ hlast hpair hquote ih =>
    obtain ⟨i, hi, rfl⟩ := Enclosure.push_eq_closed.1 h
    have hafter : Nesting.after ⟨['['], none⟩ c = ⟨['['], some c⟩ := by simp [Nesting.after, hquote]
    rw [Splitter.behind_cons, Splitter.after_of_ne (ne_backslash hlast hpair), hafter]
    exact ih hi hlevel
  | case6 _ _ _ _ _ _ hbracket => simp [hopening] at hbracket
  | case7 =>
    obtain ⟨rfl, -⟩ := Enclosure.closed.inj h
    rfl
  | case8 => exact absurd hlevel (Nat.succ_ne_zero _)
  | case9 _ c _ hlast hpair hquote _ hbracket ih =>
    obtain ⟨i, hi, rfl⟩ := Enclosure.push_eq_closed.1 h
    have hne : c ≠ ']' := by simpa [hclosing] using hbracket
    have hafter : Nesting.after ⟨['['], none⟩ c = ⟨['['], none⟩ := by
      simp [Nesting.after, hquote, hne]
    rw [Splitter.behind_cons, Splitter.after_of_ne (ne_backslash hlast hpair), hafter]
    exact ih hi hlevel

end DomQuery.Selector
