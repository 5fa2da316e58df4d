import DomQuery.Selector.Reader
import DomQuery.Proofs.Selector.Escaped

/-!
The grammar of lexemes: which text each of them takes from the front, and what must stand behind it.
-/
namespace DomQuery.Selector
open Text

variable {opening : Option Char} {closing : Char} {level : Nat} {string : Option Char}
  {fresh doubleColon : Bool} {c : Char} {cs rest more name body inside text : List Char}
  {l : Lexeme}

theorem eq_append_of_enclosed (h : enclosed opening closing level string cs = .closed inside rest) :
    cs = inside ++ closing :: rest := by
  fun_induction enclosed opening closing level string cs generalizing inside with
  | case1 => simp at h
  | case2 => simp at h
  | case3 _ _ _ _ ih =>
    obtain ⟨i, hi, rfl⟩ := Enclosure.push_eq_closed.1 h
    obtain ⟨j, hj, rfl⟩ := Enclosure.push_eq_closed.1 hi
    rw [ih hj]
    rfl
  | case7 => simp_all
  | case4 | case5 | case6 | case8 | case9 =>
    rename_i ih
    obtain ⟨i, hi, rfl⟩ := Enclosure.push_eq_closed.1 h
    rw [ih hi]
    rfl

/-- A lexeme takes a text from the front when this text and the one behind it have the right form.
Bare names reach as far as they can, and so does text that could not be understood. -/
inductive Takes (fresh : Bool) : (text : List Char) → Lexeme → (more : List Char) → Prop
  | blank {c : Char} {more : List Char} (hc : isBlank c) : Takes fresh [c] .blank more
  | combinator {c : Char} {k : Combinator} {more : List Char}
    (hc : explicitCombinator? c = some k) : Takes fresh [c] (.combinator k) more
  | comma {more : List Char} : Takes fresh [','] .comma more
  | universal {more : List Char} : Takes fresh ['*'] (.part .universal) more
  | bareSigil {sigil : Char} {name more : List Char} (hsigil : sigil = '.' ∨ sigil = '#')
    (hname : nameSpan (name ++ more) = (name, more)) (hempty : unescape name = []) :
    Takes fresh (sigil :: name) .bareSigil more
  | className {name more : List Char} (hname : nameSpan (name ++ more) = (name, more))
    (hne : unescape name ≠ []) :
    Takes fresh ('.' :: name) (.part (.className (String.ofList (unescape name)))) more
  | id {name more : List Char} (hname : nameSpan (name ++ more) = (name, more))
    (hne : unescape name ≠ []) :
    Takes fresh ('#' :: name) (.part (.id (String.ofList (unescape name)))) more
  | bracket {body more : List Char}
    (hbody : enclosed none ']' 0 none (body ++ ']' :: more) = .closed body more) :
    Takes fresh ('[' :: body ++ [']']) (.part (attributePart body)) more
  | pseudo {doubleColon : Bool} {name more : List Char}
    (hname : nameSpan (name ++ more) = (name, more))
    (hcolon : doubleColon = false → (name ++ more).head? ≠ some ':')
    (hmore : more.head? ≠ some '(') :
    Takes fresh (pseudoText doubleColon name none) (.pseudo doubleColon name none) more
  | call {doubleColon : Bool} {name argument more : List Char}
    (hname : nameSpan (name ++ '(' :: argument ++ ')' :: more) =
      (name, '(' :: argument ++ ')' :: more))
    (hcolon : doubleColon = false → name.head? ≠ some ':')
    (hargument : enclosed (some '(') ')' 0 none (argument ++ ')' :: more) =
      .closed argument more) :
    Takes fresh (pseudoText doubleColon name (some argument))
      (.pseudo doubleColon name (some argument)) more
  | tag {c : Char} {name more : List Char} (hfresh : fresh = true) (hc : startsTag c)
    (hname : nameSpan (c :: name ++ more) = (c :: name, more)) :
    Takes fresh (c :: name) (.part (.tag (String.ofList (unescape (c :: name))))) more
  | junk {c : Char} {junk more : List Char} (hc : endsJunk c = false)
    (hstart : c ≠ '*' ∧ c ≠ '.' ∧ c ≠ '#' ∧ c ≠ ':') (hfresh : startsTag c → fresh = false)
    (hjunk : ∀ x ∈ junk, endsJunk x = false) (hmore : ∀ x ∈ more.head?, endsJunk x) :
    Takes fresh (c :: junk) (.part (.unmatchable (String.ofList (c :: junk)))) more
  | fault {c : Char} {cs : List Char} {f : Fault} (h : lexeme fresh c cs = (.fault f, [])) :
    Takes fresh (c :: cs) (.fault f) []

theorem pseudoText_none (name : List Char) : pseudoText false name none = ':' :: name :=
  congrArg (':' :: ·) (List.append_nil name)

theorem pseudoText_some (name argument : List Char) :
    pseudoText false name (some argument) = ':' :: (name ++ ('(' :: argument ++ [')'])) := rfl

/-! Every lexeme is taken by these rules. -/

theorem nameSpan_split (cs : List Char) :
    ∃ name more, cs = name ++ more ∧ nameSpan cs = (name, more) ∧
      nameSpan (name ++ more) = (name, more) := by
  have happend := nameSpan_append cs
  exact ⟨(nameSpan cs).1, (nameSpan cs).2, happend.symm, rfl, by rw [happend]⟩

theorem lexeme_sigil {sigil : Char} (hsigil : sigil = '.' ∨ sigil = '#') (fresh : Bool)
    (rest : List Char) : lexeme fresh sigil rest =
      (sigilLexeme sigil (String.ofList (unescape (nameSpan rest).1)), (nameSpan rest).2) := by
  rcases hsigil with rfl | rfl <;> rfl

theorem exists_takes_sigil {sigil : Char} (hsigil : sigil = '.' ∨ sigil = '#') :
    ∃ text l more, sigil :: rest = text ++ more ∧ lexeme fresh sigil rest = (l, more) ∧
      Takes fresh text l more := by
  have hlexeme := lexeme_sigil hsigil fresh rest
  obtain ⟨name, more, rfl, hspan, hname⟩ := nameSpan_split rest
  rw [hspan] at hlexeme
  by_cases hempty : unescape name = []
  · refine ⟨sigil :: name, .bareSigil, more, rfl, ?_, .bareSigil hsigil hname hempty⟩
    rw [hlexeme, hempty]
    rfl
  · have hne : (String.ofList (unescape name)).isEmpty = false := by
      simpa [← String.toList_inj] using hempty
    cases hsigil with
    | inl heq =>
      subst heq
      refine ⟨'.' :: name, _, more, rfl, ?_, .className hname hempty⟩
      rw [hlexeme, sigilLexeme, hne]
      rfl
    | inr heq =>
      subst heq
      refine ⟨'#' :: name, _, more, rfl, ?_, .id hname hempty⟩
      rw [hlexeme, sigilLexeme, hne]
      rfl

theorem exists_takes_attribute (hlexeme : lexeme fresh '[' rest = attributeLexeme rest) :
    ∃ text l more, '[' :: rest = text ++ more ∧ lexeme fresh '[' rest = (l, more) ∧
      Takes fresh text l more := by
  cases henclosed : enclosed none ']' 0 none rest with
  | closed body more =>
    obtain rfl := eq_append_of_enclosed henclosed
    refine ⟨'[' :: body ++ [']'], _, more, by simp, ?_, .bracket henclosed⟩
    rw [hlexeme, attributeLexeme, henclosed]
  | unclosed inString =>
    have hfault : lexeme fresh '[' rest =
        (.fault (if inString then .unterminatedString else .unclosedAttribute), []) := by
      rw [hlexeme, attributeLexeme, henclosed]
    exact ⟨'[' :: rest, _, [], by simp, hfault, .fault hfault⟩

theorem argumentLexeme_of_head?_ne (h : more.head? ≠ some '(') :
    argumentLexeme doubleColon name more = (.pseudo doubleColon name none, more) := by
  rw [argumentLexeme]
  rintro inside rfl
  exact absurd rfl h

theorem exists_takes_pseudo (doubleColon : Bool) (rest : List Char)
    (hcolon : doubleColon = false → rest.head? ≠ some ':')
    (hlexeme : lexeme fresh ':' cs = pseudoLexeme doubleColon rest)
    (hcs : ':' :: cs = pseudoText doubleColon rest none) :
    ∃ text l more, ':' :: cs = text ++ more ∧ lexeme fresh ':' cs = (l, more) ∧
      Takes fresh text l more := by
  obtain ⟨name, more, rfl, hspan, hname⟩ := nameSpan_split rest
  rw [pseudoLexeme, hspan] at hlexeme
  by_cases hmore : more.head? = some '('
  · obtain ⟨inside, rfl⟩ := List.head?_eq_some_iff.1 hmore
    rw [argumentLexeme] at hlexeme
    cases henclosed : enclosed (some '(') ')' 0 none inside with
    | closed argument more =>
      obtain rfl := eq_append_of_enclosed henclosed
      refine ⟨pseudoText doubleColon name (some argument), .pseudo doubleColon name (some argument),
        more, ?_, ?_, .call (by simpa using hname) ?_ henclosed⟩
      · rw [hcs]
        simp [pseudoText]
      · rw [hlexeme, henclosed]
      · intro hsingle
        cases name with
        | nil => simp
        | cons c name => exact hcolon hsingle
    | unclosed inString =>
      have hfault : lexeme fresh ':' cs =
          (.fault (if inString then .unterminatedString else .unclosedParenthesis), []) := by
        rw [hlexeme, henclosed]
      exact ⟨':' :: cs, _, [], by simp, hfault, .fault hfault⟩
  · rw [argumentLexeme_of_head?_ne hmore] at hlexeme
    refine ⟨pseudoText doubleColon name none, _, more, ?_, hlexeme, .pseudo hname hcolon hmore⟩
    rw [hcs]
    simp [pseudoText]

theorem endsJunk_eq_false : endsJunk c = false ↔
    ¬ isBlank c ∧ explicitCombinator? c = none ∧ c ≠ ',' ∧ c ≠ '[' := by
  simp only [endsJunk, endsCompound, Bool.or_eq_false_iff, Option.isSome_eq_false_iff,
    Option.isNone_iff_eq_none, beq_eq_false_iff_ne, Bool.not_eq_true]
  exact ⟨fun ⟨⟨⟨h, h'⟩, h''⟩, h'''⟩ => ⟨h, h'', h', h'''⟩,
    fun ⟨h, h'', h', h'''⟩ => ⟨⟨⟨h, h'⟩, h''⟩, h'''⟩⟩

theorem lexeme_of_not_endsJunk (fresh : Bool) (rest : List Char) (hc : endsJunk c = false)
    (hstart : c ≠ '*' ∧ c ≠ '.' ∧ c ≠ '#' ∧ c ≠ ':') :
    lexeme fresh c rest = if startsTag c && fresh then
        (.part (.tag (String.ofList (unescape (nameSpan (c :: rest)).1))), (nameSpan (c :: rest)).2)
      else (.part (.unmatchable (String.ofList (c :: rest.takeWhile (!endsJunk ·)))),
        rest.dropWhile (!endsJunk ·)) := by
  obtain ⟨hblank, hk, hcomma, hbracket⟩ := endsJunk_eq_false.1 hc
  obtain ⟨hstar, hdot, hhash, hcolon⟩ := hstart
  simp [lexeme, hblank, hk, hcomma, hstar, hdot, hhash, hbracket, hcolon]

theorem exists_takes (fresh : Bool) (c : Char) (rest : List Char) :
    ∃ text l more, c :: rest = text ++ more ∧ lexeme fresh c rest = (l, more) ∧
      Takes fresh text l more := by
  by_cases hblank : isBlank c
  · exact ⟨[c], .blank, rest, rfl, by simp [lexeme, hblank], .blank hblank⟩
  cases hk : explicitCombinator? c with
  | some k => exact ⟨[c], .combinator k, rest, rfl, by simp [lexeme, hblank, hk], .combinator hk⟩
  | none =>
    by_cases hcomma : c = ','
    · subst hcomma
      exact ⟨[','], .comma, rest, rfl, rfl, .comma⟩
    by_cases hstar : c = '*'
    · subst hstar
      exact ⟨['*'], _, rest, rfl, rfl, .universal⟩
    by_cases hdot : c = '.'
    · subst hdot
      exact exists_takes_sigil (.inl rfl)
    by_cases hhash : c = '#'
    · subst hhash
      exact exists_takes_sigil (.inr rfl)
    by_cases hbracket : c = '['
    · subst hbracket
      exact exists_takes_attribute rfl
    by_cases hcolon : c = ':'
    · subst hcolon
      by_cases hdouble : rest.head? = some ':'
      · obtain ⟨rest, rfl⟩ := List.head?_eq_some_iff.1 hdouble
        exact exists_takes_pseudo true rest (by simp) rfl (by simp [pseudoText])
      · refine exists_takes_pseudo false rest (fun _ => hdouble) ?_ (by simp [pseudoText])
        simp [lexeme, hblank, hk, hdouble]
    have hjunk : endsJunk c = false := endsJunk_eq_false.2 ⟨hblank, hk, hcomma, hbracket⟩
    have hstart : c ≠ '*' ∧ c ≠ '.' ∧ c ≠ '#' ∧ c ≠ ':' := ⟨hstar, hdot, hhash, hcolon⟩
    have hlexeme := lexeme_of_not_endsJunk fresh rest hjunk hstart
    by_cases htag : startsTag c && fresh
    · rw [if_pos htag] at hlexeme
      rw [Bool.and_eq_true] at htag
      obtain ⟨name, more, happend, hspan, hname⟩ := nameSpan_split (c :: rest)
      cases name with
      | nil =>
        have hlt : (nameSpan (c :: rest)).2.length < (c :: rest).length :=
          nameSpan_length_lt htag.1
        rw [hspan, happend] at hlt
        exact absurd hlt (Nat.lt_irrefl _)
      | cons d name =>
        obtain ⟨rfl, rfl⟩ := List.cons.inj happend
        rw [hspan] at hlexeme
        exact ⟨c :: name, _, more, rfl, hlexeme, .tag htag.2 htag.1 hname⟩
    · rw [if_neg htag] at hlexeme
      refine ⟨c :: rest.takeWhile (!endsJunk ·), _, _, ?_, hlexeme, .junk hjunk hstart ?_ ?_ ?_⟩
      · rw [List.cons_append, List.takeWhile_append_dropWhile]
      · intro htagged
        simpa [htagged] using htag
      · intro x hx
        simpa using List.all_eq_true.1 List.all_takeWhile x hx
      · intro x hx
        have hhead := List.head?_dropWhile_not (!endsJunk ·) rest
        rw [hx] at hhead
        simpa using hhead

/-! The rules say where a lexeme ends. -/

theorem startsTag_iff : startsTag c ↔ isNameChar c ∧ ¬ c.isDigit ∨ c = '\\' := by
  simp [startsTag]

theorem not_endsJunk_of_startsTag (h : startsTag c) :
    endsJunk c = false ∧ c ≠ '*' ∧ c ≠ '.' ∧ c ≠ '#' ∧ c ≠ ':' := by
  rcases startsTag_iff.1 h with ⟨h, -⟩ | rfl
  · refine ⟨endsJunk_eq_false.2 ⟨not_isBlank_of_isNameChar h, ?_, ?_, ?_⟩, ?_, ?_, ?_, ?_⟩
    · unfold explicitCombinator?
      split <;> first | rfl | exact absurd h (by decide)
    all_goals rintro rfl; exact absurd h (by decide)
  · decide

theorem lexeme_colon (h : rest.head? ≠ some ':') :
    lexeme fresh ':' rest = pseudoLexeme false rest := by
  have hlexeme : lexeme fresh ':' rest =
    if rest.head? == some ':' then pseudoLexeme true rest.tail else pseudoLexeme false rest := rfl
  rw [hlexeme, if_neg (by simpa using h)]

theorem Takes.lexeme_eq (h : Takes fresh text l more) :
    ∃ c cs, text = c :: cs ∧ lexeme fresh c (cs ++ more) = (l, more) := by
  cases h with
  | blank hc => exact ⟨_, [], rfl, by simp [lexeme, hc]⟩
  | combinator hc =>
    refine ⟨_, [], rfl, ?_⟩
    unfold explicitCombinator? at hc
    split at hc
    · obtain rfl := Option.some.inj hc
      rfl
    · obtain rfl := Option.some.inj hc
      rfl
    · obtain rfl := Option.some.inj hc
      rfl
    · cases hc
  | comma => exact ⟨',', [], rfl, rfl⟩
  | universal => exact ⟨'*', [], rfl, rfl⟩
  | @bareSigil sigil name _ hsigil hname hempty =>
    refine ⟨sigil, name, rfl, ?_⟩
    rw [lexeme_sigil hsigil, hname, hempty]
    rfl
  | @className name _ hname hne =>
    refine ⟨'.', name, rfl, ?_⟩
    rw [lexeme_sigil (.inl rfl), hname, sigilLexeme, if_neg (by simpa [← String.toList_inj] using hne)]
    rfl
  | @id name _ hname hne =>
    refine ⟨'#', name, rfl, ?_⟩
    rw [lexeme_sigil (.inr rfl), hname, sigilLexeme, if_neg (by simpa [← String.toList_inj] using hne)]
    rfl
  | @bracket body _ hbody =>
    refine ⟨'[', body ++ [']'], rfl, ?_⟩
    have hlexeme : lexeme fresh '[' (body ++ [']'] ++ more) =
        attributeLexeme (body ++ [']'] ++ more) := rfl
    rw [hlexeme, List.append_assoc, List.singleton_append, attributeLexeme, hbody]
  | @pseudo doubleColon name _ hname hcolon hmore =>
    have hlexeme : pseudoLexeme doubleColon (name ++ more) =
        (.pseudo doubleColon name none, more) := by
      rw [pseudoLexeme, hname, argumentLexeme_of_head?_ne hmore]
    cases doubleColon with
    | true => exact ⟨':', ':' :: name, by simp [pseudoText], hlexeme⟩
    | false => exact ⟨':', name, by simp [pseudoText], by rw [lexeme_colon (hcolon rfl), hlexeme]⟩
  | @call doubleColon name argument _ hname hcolon hargument =>
    have hlexeme : pseudoLexeme doubleColon (name ++ '(' :: argument ++ [')'] ++ more) =
        (.pseudo doubleColon name (some argument), more) := by
      rw [List.append_assoc, List.singleton_append, pseudoLexeme, hname]
      simp only [List.cons_append, argumentLexeme, hargument]
    cases doubleColon with
    | true => exact ⟨':', ':' :: (name ++ '(' :: argument ++ [')']), by simp [pseudoText], hlexeme⟩
    | false =>
      refine ⟨':', name ++ '(' :: argument ++ [')'], by simp [pseudoText], ?_⟩
      rw [lexeme_colon ?_, hlexeme]
      cases name with
      | nil => simp
      | cons c name => simpa using hcolon rfl
  | @tag c name _ hfresh hc hname =>
    obtain ⟨hjunk, hstart⟩ := not_endsJunk_of_startsTag hc
    refine ⟨c, name, rfl, ?_⟩
    rw [lexeme_of_not_endsJunk _ _ hjunk hstart, if_pos (by simp [hc, hfresh]), ← List.cons_append,
      hname]
  | @junk c junk _ hc hstart hfresh hjunk hmore =>
    refine ⟨c, junk, rfl, ?_⟩
    have htag : ¬ (startsTag c && fresh) = true := by
      simpa using hfresh
    have hpos : ∀ x ∈ junk, (!endsJunk x) = true := fun x hx => by simp [hjunk x hx]
    rw [lexeme_of_not_endsJunk _ _ hc hstart, if_neg htag, List.takeWhile_append_of_pos hpos,
      List.dropWhile_append_of_pos hpos]
    cases more with
    | nil => simp
    | cons d more => simp [hmore d rfl]
  | fault h => exact ⟨_, _, rfl, by rw [List.append_nil]; exact h⟩

theorem Takes.lexemes_append (h : Takes fresh text l more) :
    lexemes fresh (text ++ more) = l :: lexemes l.separates more := by
  obtain ⟨c, cs, rfl, hlexeme⟩ := h.lexeme_eq
  rw [List.cons_append, lexemes.eq_2, hlexeme]

theorem exists_takes_lexemes (fresh : Bool) (h : cs ≠ []) :
    ∃ text l more, cs = text ++ more ∧ more.length < cs.length ∧ Takes fresh text l more ∧
      lexemes fresh cs = l :: lexemes l.separates more := by
  obtain ⟨c, rest, rfl⟩ := List.exists_cons_of_ne_nil h
  obtain ⟨text, l, more, happend, hlexeme, htakes⟩ := exists_takes fresh c rest
  have hlength := lexeme_length_le fresh c rest
  rw [hlexeme] at hlength
  refine ⟨text, l, more, happend, Nat.lt_succ_of_le hlength, htakes, ?_⟩
  rw [happend, htakes.lexemes_append]

end DomQuery.Selector
