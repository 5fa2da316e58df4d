import DomQuery.Proofs.Selector.Counting

/-!
Where the text of a part begins, and where it ends. When a lexeme that stands for a part is found at
the place where the part was printed, it has taken the printed text and nothing else.
-/
namespace DomQuery.Selector
open Text

variable {x : Char} {fresh first : Bool}
  {as bs cs ds text more rest behind name argument printed : List Char} {word : String}
  {part : Part}

/-- A list comes apart at the only place where neither side loses an occurrence. -/
theorem eq_of_count_le (h : as ++ x :: bs = cs ++ x :: ds) (hbefore : cs.count x ≤ as.count x)
    (hbehind : ds.count x ≤ bs.count x) : as = cs := by
  cases List.append_eq_append_iff.1 h with
  | inl hprefix =>
    obtain ⟨more, hcs, hmore⟩ := hprefix
    cases more with
    | nil => rw [hcs, List.append_nil]
    | cons y more =>
      obtain ⟨rfl, -⟩ := List.cons.inj hmore
      rw [hcs, List.count_append, List.count_cons_self] at hbefore
      omega
  | inr hprefix =>
    obtain ⟨more, has, hmore⟩ := hprefix
    cases more with
    | nil => rw [has, List.append_nil]
    | cons y more =>
      obtain ⟨rfl, hds⟩ : x = y ∧ ds = more ++ x :: bs := by simpa using hmore
      rw [hds, List.count_append, List.count_cons_self] at hbehind
      omega

/-! The text of a part that was taken from its own text. -/

theorem eq_word (hword : (unescape name).map Char.toLower = word.toList)
    (hisWord : IsWord word) (happend : name ++ behind = word.toList ++ rest)
    (hrest : EndsName rest.head?) : name = word.toList := by
  refine hisWord.escaped.eq_of_append happend ?_ hrest
  have hlength := congrArg List.length (hisWord.map_toLower_unescape.trans hword.symm)
  rw [List.length_map, List.length_map] at hlength
  exact hlength.symm

theorem eq_argument (hcall : call? part = some (word, printed))
    (h : Called word argument part)
    (hargument : enclosed (some '(') ')' 0 none (argument ++ ')' :: more) = .closed argument more)
    (happend : argument ++ ')' :: behind = printed ++ ')' :: rest)
    (hcount : ∀ alternatives, part = .not alternatives → rest.count ')' ≤ behind.count ')') :
    argument = printed := by
  by_cases hnot : ∃ alternatives, part = .not alternatives
  · -- The list inside prints no more parentheses than it was read from, and neither does the rest.
    obtain ⟨alternatives, rfl⟩ := hnot
    have hle := count_argument_le (.inr rfl) h hcall fun alternatives => count_chars_le (.inr rfl)
    exact eq_of_count_le happend hle (hcount alternatives rfl)
  · have hbalanced := balanced_of_call? hcall fun alternatives h => hnot ⟨alternatives, h⟩
    have hprinted := hbalanced.crosses.enclosed_parenthesis rest
    rw [← happend, enclosed_inside hargument behind] at hprinted
    exact (Enclosure.closed.inj hprinted).1

theorem Spells.eq_chars (h : Spells fresh text part more) (hlegible : part.Legible first rest.head?)
    (happend : text ++ behind = part.chars ++ rest)
    (hcount : ∀ alternatives, part = .not alternatives → rest.count ')' ≤ behind.count ')') :
    text = part.chars := by
  cases h with
  | universal => rfl
  | @tag c name =>
    rw [chars_tag, String.toList_ofList] at happend ⊢
    refine (escaped_escapeTag _).eq_of_append happend ?_ hlegible.2.1
    rw [unescape_escapeTag]
  | @id name =>
    rw [chars_id, String.toList_ofList] at happend ⊢
    refine congrArg ('#' :: ·) ((escaped_escapeName _).eq_of_append
      (List.cons.inj happend).2 ?_ hlegible.2)
    rw [unescape_escapeName]
  | @className name =>
    rw [chars_className, String.toList_ofList] at happend ⊢
    refine congrArg ('.' :: ·) ((escaped_escapeName _).eq_of_append
      (List.cons.inj happend).2 ?_ hlegible.2)
    rw [unescape_escapeName]
  | @test body _ test hbody =>
    simp only [chars_test, List.cons_append, List.append_assoc, List.nil_append, List.cons.injEq,
      true_and] at happend ⊢
    have hprinted := (crosses_testBody test).enclosed_bracket rest
    rw [← happend, enclosed_inside hbody behind] at hprinted
    rw [(Enclosure.closed.inj hprinted).1]
  | keyword _ _ hword hkey =>
    obtain ⟨hkeyword, hisWord, hchars⟩ := keyword?_eq_some hkey
    have hnext := (legible_keyword_iff hkeyword).1 hlegible
    rw [hchars, pseudoText_none, pseudoText_none] at happend
    rw [hchars, eq_word hword hisWord (List.cons.inj happend).2 hnext]
  | call hname hargument hword hcall =>
    obtain ⟨printed, hprinted⟩ := hcall.exists_call?
    rw [chars_of_call? hprinted] at happend ⊢
    simp only [pseudoText_some, List.cons_append, List.append_assoc, List.nil_append,
      List.cons.injEq, true_and] at happend
    obtain rfl := eq_word hword (isWord_of_call? hprinted) happend (by
      simp [EndsName, continuesName, isNameChar])
    have hinside := List.append_cancel_left happend
    rw [eq_argument hprinted hcall hargument (List.cons.inj hinside).2 hcount]
  | unread => rw [chars_unmatchable, String.toList_ofList]

theorem Spells.read_of_not {alternatives : List Chain}
    (h : Spells fresh (Part.chars (.not alternatives)) (.not alternatives) more) :
    IsEnclosed (Selector.chars alternatives) ∧
      read (Selector.chars alternatives) = .ok alternatives := by
  generalize htext : Part.chars (.not alternatives) = text at h
  cases h with
  | keyword _ _ _ hkey => exact absurd (keyword?_eq_some hkey).1 not_false
  | call hname hargument hword hcall =>
    obtain ⟨printed, hprinted⟩ := hcall.exists_call?
    obtain ⟨rfl, rfl⟩ := Prod.mk.inj (Option.some.inj hprinted)
    rw [chars_not, pseudoText_some, pseudoText_some] at htext
    obtain rfl := eq_word hword (isWord_of_call? hprinted) (List.cons.inj htext).2.symm (by
      simp [EndsName, continuesName, isNameChar])
    have hinside := (List.cons.inj (List.append_cancel_left (List.cons.inj htext).2)).2
    rw [List.append_cancel_right hinside]
    exact ⟨enclosed_inside hargument [], hcall.read_eq⟩

/-! Where parts begin. -/

theorem head?_chars (h : part.Legible first rest.head?) :
    ∀ c ∈ (part.chars ++ rest).head?, endsCompound c = false ∧
      (c = '.' ∨ c = '#' → ∃ name, name ≠ [] ∧ part.chars = c :: escapeName name) := by
  intro c hc
  have hplain (hends : endsCompound c = false) (hdot : c ≠ '.') (hhash : c ≠ '#') :
      endsCompound c = false ∧
        (c = '.' ∨ c = '#' → ∃ name, name ≠ [] ∧ part.chars = c :: escapeName name) :=
    ⟨hends, fun hsigil => absurd hsigil (not_or.2 ⟨hdot, hhash⟩)⟩
  cases part using form_cases with
  | universal =>
    obtain rfl := Option.some.inj hc
    exact hplain (by decide) (by decide) (by decide)
  | tag name =>
    obtain ⟨-, -, hempty⟩ := h
    by_cases hname : name.toList = []
    · rw [chars_tag, hname, escapeTag, List.nil_append,
        hempty (String.toList_eq_nil_iff.1 hname)] at hc
      cases hc
    · obtain ⟨d, cs, hcs, hstart⟩ := exists_startsTag_escapeTag hname
      rw [chars_tag, hcs] at hc
      obtain rfl := Option.some.inj hc
      obtain ⟨hjunk, -, hdot, hhash, -⟩ := not_endsJunk_of_startsTag hstart
      exact hplain (Bool.or_eq_false_iff.1 hjunk).1 hdot hhash
  | id name =>
    obtain rfl := Option.some.inj hc
    exact ⟨by decide, fun _ => ⟨_, by simpa using h.1, chars_id name⟩⟩
  | className name =>
    obtain rfl := Option.some.inj hc
    exact ⟨by decide, fun _ => ⟨_, by simpa using h.1, chars_className name⟩⟩
  | test test =>
    obtain rfl := Option.some.inj hc
    exact hplain (by decide) (by decide) (by decide)
  | keyword part hkeyword =>
    obtain ⟨word, -, hchars, -⟩ := hkeyword.exists_word
    rw [hchars] at hc
    obtain rfl := Option.some.inj hc
    exact hplain (by decide) (by decide) (by decide)
  | call part word argument hcall =>
    rw [chars_of_call? hcall] at hc
    obtain rfl := Option.some.inj hc
    exact hplain (by decide) (by decide) (by decide)
  | unmatchable text =>
    rw [Part.Legible] at h
    rw [chars_unmatchable] at hc hplain ⊢
    generalize text.toList = cs at h hc hplain ⊢
    have hpseudo (doubleColon : Bool) (name : List Char) (argument : Option (List Char))
        (hc : c ∈ (pseudoText doubleColon name argument ++ rest).head?) : c = ':' := by
      cases doubleColon <;> exact (Option.some.inj hc).symm
    cases h with
    | junk hc' hstart =>
      obtain rfl := Option.some.inj hc
      obtain ⟨-, hdot, hhash, -⟩ := hstart
      exact hplain (Bool.or_eq_false_iff.1 hc').1 hdot hhash
    | bracket =>
      obtain rfl := Option.some.inj hc
      exact hplain (by decide) (by decide) (by decide)
    | pseudo =>
      obtain rfl := hpseudo _ _ _ hc
      exact hplain (by decide) (by decide) (by decide)
    | call =>
      obtain rfl := hpseudo _ _ _ hc
      exact hplain (by decide) (by decide) (by decide)

end DomQuery.Selector
