import DomQuery.Proofs.Selector.Lexing

/-!
Text in which every bracket, parenthesis and string is closed again. The splitter and the scanner for
closing brackets both pass over it and are then where they were before.
-/
namespace DomQuery.Selector
open Text

variable {opening : Option Char} {closing : Char} {level : Nat} {n n' n'' : Nesting}
  {c q : Char} {cs ds rest text inside : List Char} {nested : Bool}

def IsPlain (c : Char) : Prop :=
  ¬ isQuote c ∧ c ≠ ',' ∧ c ≠ '[' ∧ c ≠ ']' ∧ c ≠ '(' ∧ c ≠ ')'

instance (c : Char) : Decidable (IsPlain c) := inferInstanceAs (Decidable (_ ∧ _))

theorem isPlain_of_isNameChar (h : isNameChar c) : IsPlain c := by
  refine ⟨fun hq => ?_, ?_⟩
  · simp only [isQuote, Bool.or_eq_true, beq_iff_eq] at hq
    rcases hq with rfl | rfl <;> exact absurd h (by decide)
  · refine ⟨?_, ?_, ?_, ?_, ?_⟩ <;> rintro rfl <;> exact absurd h (by decide)

theorem Escaped.isPlain (h : Escaped (isNameChar ·) cs) : Escaped IsPlain cs :=
  h.mono fun _ => isPlain_of_isNameChar

inductive Balanced : (nested : Bool) → List Char → Prop
  | plain {nested : Bool} {cs : List Char} (h : Escaped IsPlain cs) : Balanced nested cs
  | append {nested : Bool} {cs ds : List Char} (h : Balanced nested cs) (h' : Balanced nested ds) :
    Balanced nested (cs ++ ds)
  /-- Outside of brackets, commas separate and quotes mean nothing. -/
  | comma : Balanced true [',']
  | quoted (text : List Char) : Balanced true (quote text)
  | bracketed {nested : Bool} {cs : List Char} (h : Escaped IsPlain cs) (value : List Char) :
    Balanced nested ('[' :: cs ++ quote value ++ [']'])
  | bare {nested : Bool} {cs : List Char} (h : Escaped IsPlain cs) :
    Balanced nested ('[' :: cs ++ [']'])
  | parenthesised {nested : Bool} {cs : List Char} (h : Balanced true cs) :
    Balanced nested ('(' :: cs ++ [')'])

/-! The scanner for closing brackets. -/

def Enclosure.prepend (text : List Char) : Enclosure → Enclosure
  | .closed inside rest => .closed (text ++ inside) rest
  | e => e

@[simp]
theorem Enclosure.prepend_nil (e : Enclosure) : e.prepend [] = e := by cases e <;> rfl

theorem Enclosure.prepend_prepend (e : Enclosure) (text more : List Char) :
    (e.prepend more).prepend text = e.prepend (text ++ more) := by
  cases e with
  | closed inside rest => simp [prepend]
  | unclosed inString => rfl

theorem Enclosure.push_eq_prepend (e : Enclosure) (c : Char) : e.push c = e.prepend [c] := by
  cases e <;> rfl

theorem enclosed_pair (opening : Option Char) (closing : Char) (level : Nat)
    (string : Option Char) (c : Char) (rest : List Char) :
    enclosed opening closing level string ('\\' :: c :: rest) =
      (enclosed opening closing level string rest).prepend ['\\', c] := by
  rw [enclosed, Enclosure.push_eq_prepend, Enclosure.push_eq_prepend, Enclosure.prepend_prepend]
  rfl

theorem enclosed_string_cons (hc : c ≠ '\\') :
    enclosed opening closing level (some q) (c :: rest) =
      (enclosed opening closing level (if c == q then none else some q) rest).prepend [c] := by
  rw [enclosed, Enclosure.push_eq_prepend]
  · intro hslash; exact absurd hslash hc
  · intro _ _ hslash; exact absurd hslash hc

theorem enclosed_cons (hc : c ≠ '\\') :
    enclosed opening closing level none (c :: rest) =
      if isQuote c then (enclosed opening closing level (some c) rest).prepend [c]
      else if some c == opening then (enclosed opening closing (level + 1) none rest).prepend [c]
      else if c == closing then
        match level with
        | 0 => .closed [] rest
        | level + 1 => (enclosed opening closing level none rest).prepend [c]
      else (enclosed opening closing level none rest).prepend [c] := by
  simp only [← Enclosure.push_eq_prepend]
  cases level with
  | zero =>
    rw [enclosed]
    · intro hslash; exact absurd hslash hc
    · intro _ _ hslash; exact absurd hslash hc
  | succ level =>
    rw [enclosed]
    · intro hslash; exact absurd hslash hc
    · intro _ _ hslash; exact absurd hslash hc

/-- Only the text up to the closing bracket decides that it is the closing one. -/
theorem enclosed_inside (h : enclosed opening closing level string cs = .closed inside rest)
    (more : List Char) :
    enclosed opening closing level string (inside ++ closing :: more) = .closed inside more := by
  fun_induction enclosed opening closing level string cs generalizing inside with
  | case1 => simp at h
  | case2 => simp at h
  | case3 _ _ _ _ ih =>
    obtain ⟨i, hi, rfl⟩ := Enclosure.push_eq_closed.1 h
    obtain ⟨j, hj, rfl⟩ := Enclosure.push_eq_closed.1 hi
    rw [List.cons_append, List.cons_append, enclosed_pair, ih hj]
    rfl
  | case4 _ _ _ _ hlast hpair ih =>
    obtain ⟨i, hi, rfl⟩ := Enclosure.push_eq_closed.1 h
    rw [List.cons_append, enclosed_string_cons (ne_backslash hlast hpair), ih hi]
    rfl
  | case5 _ _ _ hlast hpair hquote ih =>
    obtain ⟨i, hi, rfl⟩ := Enclosure.push_eq_closed.1 h
    rw [List.cons_append, enclosed_cons (ne_backslash hlast hpair), if_pos hquote, ih hi]
    rfl
  | case6 _ _ _ hlast hpair hquote hopening ih =>
    obtain ⟨i, hi, rfl⟩ := Enclosure.push_eq_closed.1 h
    rw [List.cons_append, enclosed_cons (ne_backslash hlast hpair), if_neg hquote, if_pos hopening,
      ih hi]
    rfl
  | case7 _ _ hlast hpair hquote hopening hclosing =>
    obtain ⟨rfl, rfl⟩ := Enclosure.closed.inj h
    obtain rfl := beq_iff_eq.1 hclosing
    rw [List.nil_append, enclosed_cons (ne_backslash hlast hpair), if_neg hquote,
      if_neg hopening, if_pos hclosing]
  | case8 _ _ hlast hpair hquote hopening hclosing level ih =>
    obtain ⟨i, hi, rfl⟩ := Enclosure.push_eq_closed.1 h
    rw [List.cons_append, enclosed_cons (ne_backslash hlast hpair), if_neg hquote, if_neg hopening,
      if_pos hclosing]
    simp only [ih hi]
    rfl
  | case9 _ _ _ hlast hpair hquote hopening hclosing ih =>
    obtain ⟨i, hi, rfl⟩ := Enclosure.push_eq_closed.1 h
    rw [List.cons_append, enclosed_cons (ne_backslash hlast hpair), if_neg hquote, if_neg hopening,
      if_neg hclosing, ih hi]
    rfl

theorem enclosed_append (h : enclosed opening closing level string cs = .closed inside rest)
    (more : List Char) :
    enclosed opening closing level string (cs ++ more) = .closed inside (rest ++ more) := by
  rw [eq_append_of_enclosed h, List.append_assoc, List.cons_append]
  exact enclosed_inside h (rest ++ more)

/-- The scanner passes over a text and is then on the level it was on before. -/
def Crosses (opening : Option Char) (closing : Char) (text : List Char) : Prop :=
  ∀ level rest, enclosed opening closing level none (text ++ rest) =
    (enclosed opening closing level none rest).prepend text

theorem Crosses.append (h : Crosses opening closing cs) (h' : Crosses opening closing ds) :
    Crosses opening closing (cs ++ ds) := by
  intro level rest
  rw [List.append_assoc, h, h', Enclosure.prepend_prepend]

theorem Escaped.crosses
    (h : Escaped (fun c => ¬ isQuote c ∧ some c ≠ opening ∧ c ≠ closing) text) :
    Crosses opening closing text := by
  induction h with
  | nil => exact fun level rest => (Enclosure.prepend_nil _).symm
  | plain hc hne _ ih =>
    intro level rest
    obtain ⟨hquote, hopening, hclosing⟩ := hc
    rw [List.cons_append, enclosed_cons hne, if_neg hquote, if_neg (by simpa using hopening),
      if_neg (by simpa using hclosing), ih, Enclosure.prepend_prepend]
    rfl
  | pair c _ ih =>
    intro level rest
    rw [List.cons_append, List.cons_append, enclosed_pair, ih, Enclosure.prepend_prepend]
    rfl

theorem Escaped.enclosed_string_append (h : Escaped (· ≠ q) text) (rest : List Char) :
    enclosed opening closing level (some q) (text ++ rest) =
      (enclosed opening closing level (some q) rest).prepend text := by
  induction h with
  | nil => exact (Enclosure.prepend_nil _).symm
  | plain hc hne _ ih =>
    rw [List.cons_append, enclosed_string_cons hne, if_neg (by simpa using hc), ih,
      Enclosure.prepend_prepend]
    rfl
  | pair c _ ih =>
    rw [List.cons_append, List.cons_append, enclosed_pair, ih, Enclosure.prepend_prepend]
    rfl

theorem crosses_quote (text : List Char) : Crosses opening closing (quote text) := by
  intro level rest
  rw [quote, List.append_assoc, List.cons_append, enclosed_cons (by decide), if_pos (by decide),
    (escaped_escapeQuoted text).enclosed_string_append, List.singleton_append,
    enclosed_string_cons (by decide), if_pos (by decide)]
  simp only [Enclosure.prepend_prepend]
  rfl

theorem Crosses.parenthesised (h : Crosses (some '(') ')' cs) :
    Crosses (some '(') ')' ('(' :: cs ++ [')']) := by
  intro level rest
  have hclose : enclosed (some '(') ')' (level + 1) none (')' :: rest) =
      (enclosed (some '(') ')' level none rest).prepend [')'] := by
    rw [enclosed_cons (by decide), if_neg (by decide), if_neg (by decide), if_pos (by decide)]
  rw [List.append_assoc, List.cons_append, enclosed_cons (by decide), if_neg (by decide),
    if_pos (by decide), h, List.singleton_append, hclose]
  simp only [Enclosure.prepend_prepend]
  rfl

theorem Escaped.crosses_parentheses (h : Escaped IsPlain cs) : Crosses (some '(') ')' cs := by
  apply Escaped.crosses
  refine h.mono fun c hc => ?_
  obtain ⟨hquote, -, -, -, hopening, hclosing⟩ := hc
  exact ⟨hquote, by simpa using hopening, hclosing⟩

theorem Escaped.crosses_brackets (h : Escaped IsPlain cs) : Crosses none ']' cs := by
  apply Escaped.crosses
  refine h.mono fun c hc => ?_
  obtain ⟨hquote, -, -, hclosing, -⟩ := hc
  exact ⟨hquote, nofun, hclosing⟩

theorem crosses_bracket (h : c = '[' ∨ c = ']' ∨ c = ',') : Crosses (some '(') ')' [c] := by
  apply Escaped.crosses
  refine .plain ?_ ?_ .nil
  all_goals rcases h with rfl | rfl | rfl <;> decide

theorem Balanced.crosses (h : Balanced nested cs) : Crosses (some '(') ')' cs := by
  induction h with
  | plain h => exact h.crosses_parentheses
  | append _ _ ih ih' => exact ih.append ih'
  | comma => exact crosses_bracket (.inr (.inr rfl))
  | quoted text => exact crosses_quote text
  | bracketed h value =>
    exact (((crosses_bracket (.inl rfl)).append h.crosses_parentheses).append
      (crosses_quote value)).append (crosses_bracket (.inr (.inl rfl)))
  | bare h =>
    exact ((crosses_bracket (.inl rfl)).append h.crosses_parentheses).append
      (crosses_bracket (.inr (.inl rfl)))
  | parenthesised _ ih => exact ih.parenthesised

theorem Crosses.enclosed_parenthesis (h : Crosses (some '(') ')' cs) (rest : List Char) :
    enclosed (some '(') ')' 0 none (cs ++ ')' :: rest) = .closed cs rest := by
  rw [h, enclosed_cons (by decide), if_neg (by decide), if_neg (by decide), if_pos (by decide)]
  simp [Enclosure.prepend]

theorem Crosses.enclosed_bracket (h : Crosses none ']' cs) (rest : List Char) :
    enclosed none ']' 0 none (cs ++ ']' :: rest) = .closed cs rest := by
  rw [h, enclosed_cons (by decide), if_neg (by decide), if_neg (by decide), if_pos (by decide)]
  simp [Enclosure.prepend]

/-! The splitter. -/

theorem addToFirst_addToFirst (cs ds : List Char) (pieces : List (List Char)) :
    addToFirst cs (addToFirst ds pieces) = addToFirst (cs ++ ds) pieces := by
  cases pieces with
  | nil => rfl
  | cons piece pieces => simp [addToFirst]

theorem splitOuter_ne_nil (n : Nesting) (cs : List Char) : splitOuter n cs ≠ [] := by
  have hadd (text : List Char) (pieces : List (List Char)) : addToFirst text pieces ≠ [] := by
    cases pieces <;> simp [addToFirst]
  fun_induction splitOuter n cs with
  | case1 => simp
  | case2 => simp
  | case3 => exact hadd _ _
  | case4 => simp
  | case5 => exact hadd _ _

theorem addToFirst_nil_splitOuter (n : Nesting) (cs : List Char) :
    addToFirst [] (splitOuter n cs) = splitOuter n cs := by
  cases h : splitOuter n cs with
  | nil => exact absurd h (splitOuter_ne_nil n cs)
  | cons piece pieces => rfl

theorem splitOuter_cons (hc : c ≠ '\\') :
    splitOuter n (c :: rest) =
      if c == ',' && n.isOuter then [] :: splitOuter n rest
      else addToFirst [c] (splitOuter (n.after c) rest) := by
  rw [splitOuter]
  · intro hslash; exact absurd hslash hc
  · intro _ _ hslash; exact absurd hslash hc

/-- The splitter goes over a text without a cut, from one state to another. -/
def Leads (n : Nesting) (text : List Char) (n' : Nesting) : Prop :=
  ∀ rest, splitOuter n (text ++ rest) = addToFirst text (splitOuter n' rest)

theorem Leads.append (h : Leads n cs n') (h' : Leads n' ds n'') : Leads n (cs ++ ds) n'' := by
  intro rest
  rw [List.append_assoc, h, h', addToFirst_addToFirst]

theorem leads_nil (n : Nesting) : Leads n [] n :=
  fun rest => (addToFirst_nil_splitOuter n rest).symm

theorem leads_char (hc : c ≠ '\\') (hcomma : c = ',' → n.isOuter = false)
    (hafter : n.after c = n') : Leads n [c] n' := by
  intro rest
  rw [List.singleton_append, splitOuter_cons hc, hafter, if_neg]
  simpa using hcomma

theorem leads_pair (n : Nesting) (c : Char) : Leads n ['\\', c] n := fun _ => by simp [splitOuter]

theorem Escaped.leads
    (h : Escaped (fun c => n.after c = n ∧ (c = ',' → n.isOuter = false)) text) :
    Leads n text n := by
  induction h with
  | nil => exact leads_nil n
  | plain hc hne _ ih => exact (leads_char hne hc.2 hc.1).append ih
  | pair c _ ih => exact (leads_pair n c).append ih

/-- Between brackets, or where none is open, but in no string and in no square brackets. -/
def Nesting.IsOpen (n : Nesting) : Prop := n.string = none ∧ n.opened.head? ≠ some '['

theorem Escaped.leads_plain (h : Escaped IsPlain cs) (hn : n.string = none) : Leads n cs n := by
  apply Escaped.leads
  refine h.mono fun c hc => ?_
  obtain ⟨hquote, hcomma, hbracket, hbracket', hparenthesis, hparenthesis'⟩ := hc
  constructor
  · simp [Nesting.after, hn, hquote, hbracket, hbracket', hparenthesis, hparenthesis']
  · exact fun h => absurd h hcomma

theorem Leads.between (h : Leads n' cs n') {first last : Char} (hfirst : first ∈ ['"', '[', '('])
    (hlast : last ∈ ['"', ']', ')']) (hinto : n.after first = n') (hback : n'.after last = n) :
    Leads n (first :: cs ++ [last]) n := by
  have hfirst' : first ≠ '\\' ∧ first ≠ ',' := by
    constructor <;> rintro rfl <;> exact absurd hfirst (by decide)
  have hlast' : last ≠ '\\' ∧ last ≠ ',' := by
    constructor <;> rintro rfl <;> exact absurd hlast (by decide)
  have hopen := leads_char hfirst'.1 (fun h => absurd h hfirst'.2) hinto
  have hclose := leads_char hlast'.1 (fun h => absurd h hlast'.2) hback
  exact (hopen.append h).append hclose

theorem leads_quote (text : List Char) (hn : n.string = none) (hopened : n.opened ≠ []) :
    Leads n (quote text) n := by
  obtain ⟨opened, string⟩ := n
  obtain rfl : string = none := hn
  have hinside : Leads ⟨opened, some '"'⟩ (escapeQuoted text) ⟨opened, some '"'⟩ := by
    apply Escaped.leads
    refine (escaped_escapeQuoted text).mono fun c hc => ?_
    exact ⟨by simp [Nesting.after, hc], fun _ => by simp [Nesting.isOuter]⟩
  refine hinside.between (by decide) (by decide) ?_ ?_
  · simpa [Nesting.after, isQuote] using hopened
  · simp [Nesting.after]

theorem Nesting.IsOpen.after_bracket (hn : n.IsOpen) :
    n.after '[' = ⟨'[' :: n.opened, none⟩ ∧ Nesting.after ⟨'[' :: n.opened, none⟩ ']' = n := by
  obtain ⟨opened, string⟩ := n
  obtain ⟨rfl, hhead⟩ : string = none ∧ opened.head? ≠ some '[' := hn
  simp [Nesting.after, isQuote, hhead]

theorem Nesting.IsOpen.after_parenthesis (hn : n.IsOpen) :
    n.after '(' = ⟨'(' :: n.opened, none⟩ ∧ Nesting.after ⟨'(' :: n.opened, none⟩ ')' = n := by
  obtain ⟨opened, string⟩ := n
  obtain ⟨rfl, hhead⟩ : string = none ∧ opened.head? ≠ some '[' := hn
  simp [Nesting.after, isQuote, hhead]

theorem Balanced.leads (h : Balanced nested cs) (hn : n.IsOpen)
    (hnested : nested → n.opened ≠ []) : Leads n cs n := by
  induction h generalizing n with
  | plain h => exact h.leads_plain hn.1
  | append _ _ ih ih' => exact (ih hn hnested).append (ih' hn hnested)
  | comma =>
    refine leads_char (by decide) (fun _ => ?_) ?_
    · simp [Nesting.isOuter, hnested rfl]
    · simp [Nesting.after, hn.1, isQuote]
  | quoted text => exact leads_quote text hn.1 (hnested rfl)
  | bracketed h value =>
    obtain ⟨hinto, hback⟩ := hn.after_bracket
    have hvalue := leads_quote (n := ⟨'[' :: n.opened, none⟩) value rfl (List.cons_ne_nil _ _)
    have hinside := (h.leads_plain rfl).append hvalue
    exact hinside.between (by decide) (by decide) hinto hback
  | bare h =>
    obtain ⟨hinto, hback⟩ := hn.after_bracket
    exact (h.leads_plain rfl).between (by decide) (by decide) hinto hback
  | parenthesised _ ih =>
    obtain ⟨hinto, hback⟩ := hn.after_parenthesis
    have hopen : Nesting.IsOpen ⟨'(' :: n.opened, none⟩ := ⟨rfl, by simp⟩
    exact (ih hopen (by simp)).between (by decide) (by decide) hinto hback

end DomQuery.Selector
