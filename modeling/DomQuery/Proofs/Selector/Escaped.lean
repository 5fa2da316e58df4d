import DomQuery.Proofs.Selector.Characters

/-!
Text with escapes. A backslash and the character behind it are one unit for every scanner, so text
whose other characters mean nothing to a scanner passes through it whole.
-/
namespace DomQuery.Selector
open Text

/-- Every character satisfies `plain` or stands behind a backslash; none is missing behind one. -/
inductive Escaped (plain : Char → Prop) : List Char → Prop
  | nil : Escaped plain []
  | plain {c : Char} {rest : List Char} (hc : plain c) (hne : c ≠ '\\') (h : Escaped plain rest) :
    Escaped plain (c :: rest)
  | pair (c : Char) {rest : List Char} (h : Escaped plain rest) : Escaped plain ('\\' :: c :: rest)

variable {plain other : Char → Prop} {c : Char} {cs ds rest : List Char}

theorem Escaped.append (h : Escaped plain cs) (h' : Escaped plain ds) :
    Escaped plain (cs ++ ds) := by
  induction h with
  | nil => exact h'
  | plain hc hne _ ih => exact .plain hc hne ih
  | pair c _ ih => exact .pair c ih

theorem Escaped.mono (h : Escaped plain cs) (himp : ∀ c, plain c → other c) :
    Escaped other cs := by
  induction h with
  | nil => exact .nil
  | plain hc hne _ ih => exact .plain (himp _ hc) hne ih
  | pair c _ ih => exact .pair c ih

theorem escaped_of_forall (h : ∀ c ∈ cs, plain c ∧ c ≠ '\\') : Escaped plain cs := by
  induction cs with
  | nil => exact .nil
  | cons c cs ih =>
    obtain ⟨hc, hne⟩ := h c List.mem_cons_self
    exact .plain hc hne (ih fun d hd => h d (List.mem_cons_of_mem c hd))

/-! What the printer writes. -/

theorem escaped_escapeChar (c : Char) : Escaped (isNameChar ·) (escapeChar c) := by
  unfold escapeChar
  split
  · rename_i h
    exact .plain h (ne_backslash_of_isNameChar h) .nil
  · exact .pair c .nil

theorem escaped_escapeName (name : List Char) : Escaped (isNameChar ·) (escapeName name) := by
  induction name with
  | nil => exact .nil
  | cons c name ih => exact (escaped_escapeChar c).append ih

theorem escaped_escapeTag (name : List Char) : Escaped (isNameChar ·) (escapeTag name) := by
  cases name with
  | nil => exact .nil
  | cons c name =>
    refine Escaped.append ?_ (escaped_escapeName name)
    split
    · exact .pair c .nil
    · exact escaped_escapeChar c

theorem escaped_escapeQuoted (text : List Char) : Escaped (· ≠ '"') (escapeQuoted text) := by
  induction text with
  | nil => exact .nil
  | cons c text ih =>
    refine Escaped.append ?_ ih
    split
    · exact .pair c .nil
    · rename_i h
      simp only [Bool.or_eq_true, beq_iff_eq, not_or] at h
      exact .plain h.2 h.1 .nil

/-! What the reader makes of it. -/

theorem unescape_cons (hc : c ≠ '\\') (cs : List Char) :
    unescape (c :: cs) = c :: unescape cs := by
  rw [unescape]
  · intro hslash; exact absurd hslash hc
  · intro _ _ hslash; exact absurd hslash hc

theorem Escaped.unescape_append (h : Escaped plain cs) (rest : List Char) :
    unescape (cs ++ rest) = unescape cs ++ unescape rest := by
  induction h with
  | nil => rfl
  | plain hc hne _ ih => rw [List.cons_append, unescape_cons hne, unescape_cons hne, ih]; rfl
  | pair c _ ih => simp only [List.cons_append, unescape, ih]

theorem unescape_sublist (cs : List Char) : (unescape cs).Sublist cs := by
  fun_induction unescape cs with
  | case1 => exact List.nil_sublist _
  | case2 => exact List.nil_sublist _
  | case3 c rest ih => exact (ih.cons_cons c).cons '\\'
  | case4 c rest _ _ ih => exact ih.cons_cons c

theorem unescape_eq_nil (h : unescape cs = []) : cs = [] ∨ cs = ['\\'] := by
  unfold unescape at h
  split at h
  · exact .inl rfl
  · exact .inr rfl
  · exact absurd h (List.cons_ne_nil _ _)
  · exact absurd h (List.cons_ne_nil _ _)

theorem unescape_escapeChar (c : Char) : unescape (escapeChar c) = [c] := by
  unfold escapeChar
  split
  · rename_i h
    rw [unescape_cons (ne_backslash_of_isNameChar h)]
    rfl
  · rfl

theorem unescape_escapeName (name : List Char) : unescape (escapeName name) = name := by
  induction name with
  | nil => rfl
  | cons c name ih =>
    have h := (escaped_escapeChar c).unescape_append (escapeName name)
    rw [unescape_escapeChar, ih] at h
    exact h

theorem unescape_escapeTag (name : List Char) : unescape (escapeTag name) = name := by
  cases name with
  | nil => rfl
  | cons c name =>
    rw [escapeTag]
    split
    · exact congrArg (c :: ·) (unescape_escapeName name)
    · rw [(escaped_escapeChar c).unescape_append, unescape_escapeChar, unescape_escapeName]
      rfl

theorem unescape_escapeQuoted (text : List Char) : unescape (escapeQuoted text) = text := by
  induction text with
  | nil => rfl
  | cons c text ih =>
    rw [escapeQuoted]
    split
    · exact congrArg (c :: ·) ih
    · rename_i h
      simp only [Bool.or_eq_true, beq_iff_eq, not_or] at h
      rw [List.singleton_append, unescape_cons h.1, ih]

theorem unquote?_quote (text : List Char) : unquote? (quote text) = some text := by
  have hlast : (escapeQuoted text ++ ['"']).reverse = '"' :: (escapeQuoted text).reverse := by
    rw [List.reverse_append]
    rfl
  rw [quote, List.cons_append, unquote?, hlast]
  simp [unescape_escapeQuoted]

/-! Names end where nothing can continue them. -/

def continuesName (c : Char) : Bool := isNameChar c || c == '\\'

theorem ne_backslash (hlast : c = '\\' → rest = [] → False)
    (hpair : ∀ d more, c = '\\' → rest = d :: more → False) : c ≠ '\\' := by
  rintro rfl
  cases rest with
  | nil => exact hlast rfl rfl
  | cons d more => exact hpair d more rfl rfl

theorem nameSpan_of_not_continuesName (h : ∀ c ∈ cs.head?, ¬ continuesName c) :
    nameSpan cs = ([], cs) := by
  cases cs with
  | nil => rfl
  | cons c cs =>
    have hc := h c rfl
    simp only [continuesName, Bool.or_eq_true, beq_iff_eq, not_or] at hc
    rw [nameSpan]
    · simp [hc.1]
    · intro hslash; exact absurd hslash hc.2
    · intro _ _ hslash; exact absurd hslash hc.2

theorem Escaped.nameSpan_append (h : Escaped (isNameChar ·) cs) (rest : List Char) :
    nameSpan (cs ++ rest) = (cs ++ (nameSpan rest).1, (nameSpan rest).2) := by
  induction h with
  | nil => rfl
  | plain hc hne _ ih => rw [List.cons_append, nameSpan_cons hc hne, ih]; rfl
  | pair c _ ih => simp only [List.cons_append, nameSpan, ih]

theorem Escaped.nameSpan_eq (h : Escaped (isNameChar ·) cs)
    (hrest : ∀ c ∈ rest.head?, ¬ continuesName c) : nameSpan (cs ++ rest) = (cs, rest) := by
  rw [h.nameSpan_append, nameSpan_of_not_continuesName hrest, List.append_nil]

theorem Escaped.nameSpan_self (h : Escaped (isNameChar ·) cs) : nameSpan cs = (cs, []) := by
  have hspan : nameSpan (cs ++ []) = (cs, []) := h.nameSpan_eq nofun
  rwa [List.append_nil] at hspan

theorem not_continuesName_behind_nameSpan (cs : List Char) :
    ∀ c ∈ (nameSpan cs).2.head?, ¬ continuesName c := by
  fun_induction nameSpan cs with
  | case1 => simp
  | case2 => simp
  | case3 c rest name more hspan ih => rwa [hspan] at ih
  | case4 c rest _ _ hname name more hspan ih => rwa [hspan] at ih
  | case5 c rest hlast hpair hname =>
    intro d hd
    obtain rfl : c = d := by simpa using hd
    simp [continuesName, hname, ne_backslash hlast hpair]

/-- Only at the very end of a text a name may end in a backslash without a character behind it. -/
theorem escaped_nameSpan (cs : List Char) :
    Escaped (isNameChar ·) (nameSpan cs).1 ∨
      (nameSpan cs).2 = [] ∧ ∃ init, Escaped (isNameChar ·) init ∧
        (nameSpan cs).1 = init ++ ['\\'] := by
  fun_induction nameSpan cs with
  | case1 => exact .inl .nil
  | case2 => exact .inr ⟨rfl, [], .nil, rfl⟩
  | case3 c rest name more hspan ih =>
    rw [hspan] at ih
    rcases ih with h | ⟨hmore, init, hinit, hname⟩
    · exact .inl (.pair c h)
    · exact .inr ⟨hmore, '\\' :: c :: init, .pair c hinit, by simpa using hname⟩
  | case4 c rest _ _ hname name more hspan ih =>
    rw [hspan] at ih
    have hne := ne_backslash_of_isNameChar hname
    rcases ih with h | ⟨hmore, init, hinit, heq⟩
    · exact .inl (.plain hname hne h)
    · exact .inr ⟨hmore, c :: init, .plain hname hne hinit, by simpa using heq⟩
  | case5 => exact .inl .nil

theorem Escaped.continuesName (h : Escaped (isNameChar ·) cs) :
    ∀ c ∈ cs.head?, continuesName c := by
  intro c hc
  cases h with
  | nil => exact absurd hc nofun
  | plain hname =>
    obtain rfl := Option.some.inj hc
    exact Bool.or_eq_true_iff.2 (.inl hname)
  | pair =>
    obtain rfl := Option.some.inj hc
    decide

theorem not_isBlank_of_continuesName (h : continuesName c) : ¬ isBlank c := by
  cases Bool.or_eq_true_iff.1 h with
  | inl h => exact not_isBlank_of_isNameChar h
  | inr h =>
    obtain rfl := beq_iff_eq.1 h
    decide

/-! A name is found in a text by what it stands for. -/

theorem Escaped.length_unescape_lt (h : Escaped plain cs) (happend : cs = ds ++ rest)
    (hne : rest ≠ []) : (unescape ds).length < (unescape cs).length := by
  induction h generalizing ds with
  | nil => exact absurd (List.append_eq_nil_iff.1 happend.symm).2 hne
  | @plain c cs hc hbackslash _ ih =>
    rw [unescape_cons hbackslash]
    cases ds with
    | nil => exact Nat.succ_pos _
    | cons d ds =>
      obtain ⟨rfl, hrest⟩ := List.cons.inj happend
      rw [unescape_cons hbackslash]
      exact Nat.succ_lt_succ (ih hrest)
  | @pair c cs _ ih =>
    rw [unescape]
    cases ds with
    | nil => exact Nat.succ_pos _
    | cons d ds =>
      obtain ⟨rfl, htail⟩ := List.cons.inj happend
      cases ds with
      | nil => exact Nat.succ_pos _
      | cons d ds =>
        obtain ⟨rfl, hrest⟩ := List.cons.inj htail
        rw [unescape]
        exact Nat.succ_lt_succ (ih hrest)

theorem Escaped.eq_of_append {behind : List Char} (h : Escaped plain cs)
    (happend : ds ++ behind = cs ++ rest)
    (hlength : (unescape ds).length = (unescape cs).length)
    (hrest : ∀ c ∈ rest.head?, ¬ DomQuery.Selector.continuesName c) : ds = cs := by
  cases List.append_eq_append_iff.1 happend with
  | inl hprefix =>
    obtain ⟨more, hcs, -⟩ := hprefix
    by_cases hmore : more = []
    · rw [hcs, hmore, List.append_nil]
    · have hlt := h.length_unescape_lt hcs hmore
      omega
  | inr hprefix =>
    obtain ⟨more, hds, hmore⟩ := hprefix
    rw [hds, h.unescape_append, List.length_append] at hlength
    have hnil : unescape more = [] := List.eq_nil_of_length_eq_zero (by omega)
    cases unescape_eq_nil hnil with
    | inl hnil => rw [hds, hnil, List.append_nil]
    | inr hbackslash =>
      rw [hmore, hbackslash] at hrest
      exact absurd (by decide) (hrest '\\' rfl)

end DomQuery.Selector
