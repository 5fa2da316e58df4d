import Mathlib.Data.List.Induction
import Mathlib.Data.List.TakeDrop
import Mathlib.Data.List.TakeWhile
import DomQuery.Proofs.Selector.Characters

/-!
The texts that stand for formulas, once blanks are dropped and capitals are lowered: a keyword, a number,
or a multiple of `n` with an offset that shows its sign. They are exactly the texts that are read. The
canonical text of a formula is one of them, from the least word of 32 bits to the greatest.
-/
namespace DomQuery.Formula
open Text Selector

variable {cs ds : List Char} {c : Char} {k : Nat} {n : Int} {w : Int32} {f : Formula}

/-! The grammar. -/

/-- Decimal digits and their value. -/
inductive Digits : List Char → Nat → Prop
  | single {c : Char} (hc : c.isDigit) : Digits [c] (digitValue c)
  | concat {ds : List Char} {k : Nat} {c : Char} (hds : Digits ds k) (hc : c.isDigit) :
    Digits (ds ++ [c]) (10 * k + digitValue c)

/-- Digits behind a sign. -/
inductive Signed : List Char → Int → Prop
  | plus {ds : List Char} {k : Nat} (h : Digits ds k) : Signed ('+' :: ds) k
  | minus {ds : List Char} {k : Nat} (h : Digits ds k) : Signed ('-' :: ds) (-k)

/-- Digits with or without a sign. -/
inductive Numeral : List Char → Int → Prop
  | unsigned {ds : List Char} {k : Nat} (h : Digits ds k) : Numeral ds k
  | signed {cs : List Char} {n : Int} (h : Signed cs n) : Numeral cs n

/-- What may stand before the `n`. Without digits the coefficient is one, with the sign that is there. -/
inductive Coefficient : List Char → Int → Prop
  | absent : Coefficient [] 1
  | plus : Coefficient ['+'] 1
  | minus : Coefficient ['-'] (-1)
  | numeral {cs : List Char} {n : Int} (h : Numeral cs n) : Coefficient cs n

/-- What may stand behind the `n`. -/
inductive Offset : List Char → Int → Prop
  | absent : Offset [] 0
  | signed {cs : List Char} {n : Int} (h : Signed cs n) : Offset cs n

/-- A formula and a text for it. All numbers are words of 32 bits. -/
inductive Writes : List Char → Formula → Prop
  | even : Writes "even".toList ⟨2, 0⟩
  | odd : Writes "odd".toList ⟨2, 1⟩
  | constant {cs : List Char} {b : Int32} (hb : Numeral cs b.toInt) : Writes cs ⟨0, b⟩
  | multiple {cs ds : List Char} {a b : Int32} (ha : Coefficient cs a.toInt) (hb : Offset ds b.toInt) :
    Writes (cs ++ 'n' :: ds) ⟨a, b⟩

/-- A text without blanks and ASCII capitals. -/
def compact (cs : List Char) : List Char := (cs.filter (!isBlank ·)).map Char.toLower

/-! But for keywords, texts hold only digits, signs and one `n`. -/

def IsWritten (c : Char) : Prop := c.isDigit ∨ c = '-' ∨ c = '+' ∨ c = 'n'

theorem IsWritten.not_isBlank (h : IsWritten c) : ¬ isBlank c := by
  rcases h with h | rfl | rfl | rfl
  · exact not_isBlank_of_isNameChar (isNameChar_of_isDigit h)
  all_goals decide

theorem IsWritten.toLower (h : IsWritten c) : c.toLower = c := by
  have hupper : ¬ (65 ≤ c.toNat ∧ c.toNat ≤ 90) := by
    rcases h with h | rfl | rfl | rfl
    · rw [isDigit_iff] at h
      omega
    all_goals decide
  have hcapital : ¬ ('A'.val ≤ c.val ∧ c.val ≤ 'Z'.val) := by
    simpa [UInt32.le_iff_toNat_le] using hupper
  exact dif_neg hcapital

theorem compact_eq_self (h : ∀ c ∈ cs, IsWritten c) : compact cs = cs := by
  have hfilter : cs.filter (!isBlank ·) = cs :=
    List.filter_eq_self.2 fun c hc => by simp [(h c hc).not_isBlank]
  have hmap : cs.map Char.toLower = cs.map id :=
    List.map_congr_left fun c hc => (h c hc).toLower
  rw [compact, hfilter, hmap, List.map_id]

theorem Digits.ne_nil (h : Digits ds k) : ds ≠ [] := by
  cases h <;> simp

theorem Digits.isDigit (h : Digits ds k) : ∀ c ∈ ds, c.isDigit := by
  induction h with
  | single hc => exact List.forall_mem_singleton.2 hc
  | concat _ hc ih => exact List.forall_mem_append.2 ⟨ih, List.forall_mem_singleton.2 hc⟩

theorem Digits.isWritten (h : Digits ds k) : ∀ c ∈ ds, IsWritten c ∧ c ≠ 'n' := by
  intro c hc
  have hdigit := h.isDigit c hc
  refine ⟨.inl hdigit, ?_⟩
  rintro rfl
  exact absurd hdigit (by decide)

theorem Signed.isWritten (h : Signed cs n) : ∀ c ∈ cs, IsWritten c ∧ c ≠ 'n' := by
  cases h with
  | plus h => exact List.forall_mem_cons.2 ⟨⟨.inr (.inr (.inl rfl)), by decide⟩, h.isWritten⟩
  | minus h => exact List.forall_mem_cons.2 ⟨⟨.inr (.inl rfl), by decide⟩, h.isWritten⟩

theorem Numeral.isWritten (h : Numeral cs n) : ∀ c ∈ cs, IsWritten c ∧ c ≠ 'n' := by
  cases h with
  | unsigned h => exact h.isWritten
  | signed h => exact h.isWritten

theorem Coefficient.isWritten (h : Coefficient cs n) : ∀ c ∈ cs, IsWritten c ∧ c ≠ 'n' := by
  cases h with
  | absent => exact List.forall_mem_nil _
  | plus => exact List.forall_mem_singleton.2 ⟨.inr (.inr (.inl rfl)), by decide⟩
  | minus => exact List.forall_mem_singleton.2 ⟨.inr (.inl rfl), by decide⟩
  | numeral h => exact h.isWritten

theorem Offset.isWritten (h : Offset cs n) : ∀ c ∈ cs, IsWritten c ∧ c ≠ 'n' := by
  cases h with
  | absent => exact List.forall_mem_nil _
  | signed h => exact h.isWritten

theorem isWritten_multiple {m : Int} (ha : Coefficient cs m) (hb : Offset ds n) :
    ∀ c ∈ cs ++ 'n' :: ds, IsWritten c := by
  refine List.forall_mem_append.2 ⟨fun c hc => (ha.isWritten c hc).1, ?_⟩
  exact List.forall_mem_cons.2 ⟨.inr (.inr (.inr rfl)), fun c hc => (hb.isWritten c hc).1⟩

/-! Numbers. -/

theorem Digits.foldl_eq (h : Digits ds k) : ds.foldl (fun n c => 10 * n + digitValue c) 0 = k := by
  induction h with
  | single _ => simp
  | concat _ _ ih => rw [List.foldl_append, ih, List.foldl_cons, List.foldl_nil]

theorem digits_of_isDigit (hne : ds ≠ []) (h : ∀ c ∈ ds, c.isDigit) :
    Digits ds (ds.foldl (fun n c => 10 * n + digitValue c) 0) := by
  induction ds using List.reverseRecOn with
  | nil => exact absurd rfl hne
  | append_singleton ds c ih =>
    obtain ⟨hds, hc⟩ := List.forall_mem_append.1 h
    have hc := hc c (List.mem_singleton_self c)
    rw [List.foldl_append, List.foldl_cons, List.foldl_nil]
    by_cases hnil : ds = []
    · subst hnil
      simpa using Digits.single hc
    · exact .concat (ih hnil hds) hc

theorem natural?_eq_some_iff : natural? ds = some k ↔ Digits ds k := by
  have hguard : (ds.isEmpty || !ds.all Char.isDigit) = true ↔ ¬ (ds ≠ [] ∧ ∀ c ∈ ds, c.isDigit) := by
    simp only [Bool.or_eq_true, Bool.not_eq_true', List.isEmpty_iff, ← Bool.not_eq_true,
      List.all_eq_true]
    tauto
  rw [natural?]
  constructor
  · split
    · exact nofun
    · rename_i hdigits
      obtain ⟨hne, hall⟩ := not_not.1 (hguard.not.1 hdigits)
      intro h
      obtain rfl := Option.some.inj h
      exact digits_of_isDigit hne hall
  · intro h
    rw [if_neg (hguard.not.2 (not_not_intro ⟨h.ne_nil, h.isDigit⟩)), h.foldl_eq]

theorem not_digits_sign (hc : c = '+' ∨ c = '-') : ¬ Digits (c :: ds) k := by
  intro h
  have hdigit := h.isDigit c List.mem_cons_self
  rcases hc with rfl | rfl <;> exact absurd hdigit (by decide)

theorem not_numeral_nil : ¬ Numeral [] n := by
  rintro (h | h)
  · exact h.ne_nil rfl
  · cases h

theorem not_numeral_sign (hc : c = '+' ∨ c = '-') : ¬ Numeral [c] n := by
  rintro (h | h | h)
  · exact not_digits_sign hc h
  all_goals exact h.ne_nil rfl

theorem signed_iff : Signed cs n ↔ Numeral cs n ∧ (cs.head? = some '+' ∨ cs.head? = some '-') := by
  constructor
  · intro h
    refine ⟨.signed h, ?_⟩
    cases h with
    | plus _ => exact .inl rfl
    | minus _ => exact .inr rfl
  · rintro ⟨h | h, hhead⟩
    · cases cs with
      | nil => exact absurd hhead nofun
      | cons c ds => exact absurd h (not_digits_sign (by simpa using hhead))
    · exact h

theorem integer?_of_forall_isDigit (h : ∀ c ∈ cs, c.isDigit) :
    integer? cs = (natural? cs).map Int.ofNat := by
  rw [integer?]
  · rintro rest rfl
    exact absurd (h _ List.mem_cons_self) (by decide)
  · rintro rest rfl
    exact absurd (h _ List.mem_cons_self) (by decide)

theorem integer?_minus : integer? ('-' :: ds) = (natural? ds).map fun k : Nat => -(k : Int) := by
  rw [integer?]
  cases natural? ds <;> rfl

theorem integer?_eq_some_iff : integer? cs = some n ↔ Numeral cs n := by
  constructor
  · intro h
    unfold integer? at h
    split at h
    · obtain ⟨k, hk, rfl⟩ := Option.map_eq_some_iff.1 h
      exact .signed (.plus (natural?_eq_some_iff.1 hk))
    · rename_i ds
      have hminus : integer? ('-' :: ds) = _ := integer?_minus
      replace h := hminus.symm.trans h
      obtain ⟨k, hk, rfl⟩ := Option.map_eq_some_iff.1 h
      exact .signed (.minus (natural?_eq_some_iff.1 hk))
    · obtain ⟨k, hk, rfl⟩ := Option.map_eq_some_iff.1 h
      exact .unsigned (natural?_eq_some_iff.1 hk)
  · intro h
    cases h with
    | unsigned h =>
      rw [integer?_of_forall_isDigit h.isDigit, natural?_eq_some_iff.2 h]
      rfl
    | signed h =>
      cases h with
      | plus h =>
        rw [integer?, natural?_eq_some_iff.2 h]
        rfl
      | minus h =>
        rw [integer?_minus, natural?_eq_some_iff.2 h]
        rfl

theorem word?_of_integer? (h : integer? cs = some w.toInt) : word? cs = some w := by
  have hlow := Int32.le_toInt w
  have hhigh := Int32.toInt_lt w
  simp only [word?, h, Option.bind_eq_bind, Option.bind_some]
  rw [if_pos ⟨hlow, hhigh⟩, Int32.ofInt_toInt]

theorem word?_eq_some_iff : word? cs = some w ↔ Numeral cs w.toInt := by
  rw [← integer?_eq_some_iff]
  refine ⟨fun h => ?_, word?_of_integer?⟩
  obtain ⟨n, hn, h⟩ := Option.bind_eq_some_iff.1 h
  split at h
  · rename_i hrange
    obtain rfl := Option.some.inj h
    rw [hn, Int32.toInt_ofInt_of_le hrange.1 hrange.2]
  · exact absurd h nofun

theorem coefficient?_eq_some_iff : coefficient? cs = some w ↔ Coefficient cs w.toInt := by
  constructor
  · intro h
    unfold coefficient? at h
    split at h
    · obtain rfl := Option.some.inj h
      exact .absent
    · obtain rfl := Option.some.inj h
      exact .plus
    · obtain rfl := Option.some.inj h
      exact .minus
    · exact .numeral (word?_eq_some_iff.1 h)
  · intro h
    generalize hn : w.toInt = n at h
    cases h with
    | absent => exact congrArg some (Int32.toInt_inj.1 hn).symm
    | plus => exact congrArg some (Int32.toInt_inj.1 hn).symm
    | minus => exact congrArg some (Int32.toInt_inj.1 hn).symm
    | numeral h =>
      subst hn
      rw [coefficient?]
      · exact word?_eq_some_iff.2 h
      · rintro rfl
        exact not_numeral_nil h
      · rintro rfl
        exact not_numeral_sign (.inl rfl) h
      · rintro rfl
        exact not_numeral_sign (.inr rfl) h

theorem offset?_eq_some_iff : offset? cs = some w ↔ Offset cs w.toInt := by
  cases cs with
  | nil =>
    rw [offset?, Option.some.injEq, ← Int32.toInt_inj, eq_comm]
    constructor
    · intro h
      rw [h]
      exact .absent
    · intro h
      generalize w.toInt = n at h
      cases h with
      | absent => rfl
      | signed h => cases h
  | cons c ds =>
    have hsigned : Offset (c :: ds) w.toInt ↔ Signed (c :: ds) w.toInt := by
      refine ⟨fun h => ?_, .signed⟩
      generalize w.toInt = n at h
      cases h with
      | signed h => exact h
    have hhead : (c == '+' || c == '-') = true ↔ c = '+' ∨ c = '-' := by simp
    rw [offset?, hsigned, signed_iff, List.head?_cons, Option.some.injEq, Option.some.injEq]
    split
    · rename_i hsign
      rw [word?_eq_some_iff]
      exact (and_iff_left (hhead.1 hsign)).symm
    · rename_i hsign
      exact iff_of_false (Option.some_ne_none w).symm fun h => hsign (hhead.2 h.2)

/-! Whole formulas: the first `n` is where the coefficient ends. -/

theorem ne_keyword_of_forall_isWritten (h : ∀ c ∈ cs, IsWritten c) :
    cs ≠ "even".toList ∧ cs ≠ "odd".toList := by
  constructor
  · rintro rfl
    exact absurd (h 'e' (by decide)) (by simp [IsWritten, Char.isDigit])
  · rintro rfl
    exact absurd (h 'o' (by decide)) (by simp [IsWritten, Char.isDigit])

theorem ofCompact?_of_not_mem (hkeyword : cs ≠ "even".toList ∧ cs ≠ "odd".toList)
    (h : ∀ c ∈ cs, c ≠ 'n') : ofCompact? cs = (word? cs).map (⟨0, ·⟩) := by
  have hne : ∀ c ∈ cs, (c != 'n') = true := fun c hc => bne_iff_ne.2 (h c hc)
  have hspan : cs.span (· != 'n') = (cs, []) := by
    rw [List.span_eq_takeWhile_dropWhile, List.takeWhile_eq_self_iff.2 hne,
      List.dropWhile_eq_nil_iff.2 hne]
  rw [ofCompact?, if_neg (by simpa using hkeyword.1), if_neg (by simpa using hkeyword.2), hspan]

theorem ofCompact?_append {ds : List Char}
    (hkeyword : cs ++ 'n' :: ds ≠ "even".toList ∧ cs ++ 'n' :: ds ≠ "odd".toList)
    (h : ∀ c ∈ cs, c ≠ 'n') :
    ofCompact? (cs ++ 'n' :: ds) =
      (coefficient? cs).bind fun a => (offset? ds).bind fun b => some ⟨a, b⟩ := by
  have hne : ∀ c ∈ cs, (c != 'n') = true := fun c hc => bne_iff_ne.2 (h c hc)
  have hspan : (cs ++ 'n' :: ds).span (· != 'n') = (cs, 'n' :: ds) := by
    rw [List.span_eq_takeWhile_dropWhile, List.takeWhile_append_of_pos hne,
      List.dropWhile_append_of_pos hne]
    simp
  rw [ofCompact?, if_neg (by simpa using hkeyword.1), if_neg (by simpa using hkeyword.2), hspan]
  rfl

theorem writes_of_ofCompact? (h : ofCompact? cs = some f) : Writes cs f := by
  by_cases heven : cs = "even".toList
  · subst heven
    obtain rfl := Option.some.inj h
    exact .even
  by_cases hodd : cs = "odd".toList
  · subst hodd
    obtain rfl := Option.some.inj h
    exact .odd
  by_cases hn : 'n' ∈ cs
  · -- what stands before the first `n` holds none
    obtain ⟨number, rest, rfl, hnumber⟩ := List.eq_append_cons_of_mem hn
    rw [ofCompact?_append ⟨heven, hodd⟩ fun c hc heq => hnumber (heq ▸ hc)] at h
    obtain ⟨a, ha, h⟩ := Option.bind_eq_some_iff.1 h
    obtain ⟨b, hb, h⟩ := Option.bind_eq_some_iff.1 h
    obtain rfl := Option.some.inj h
    exact .multiple (coefficient?_eq_some_iff.1 ha) (offset?_eq_some_iff.1 hb)
  · rw [ofCompact?_of_not_mem ⟨heven, hodd⟩ fun c hc heq => hn (heq ▸ hc)] at h
    obtain ⟨b, hb, rfl⟩ := Option.map_eq_some_iff.1 h
    exact .constant (word?_eq_some_iff.1 hb)

theorem ofCompact?_of_writes (h : Writes cs f) : ofCompact? cs = some f := by
  cases h with
  | even => rfl
  | odd => rfl
  | constant hb =>
    have hkeyword := ne_keyword_of_forall_isWritten fun c hc => (hb.isWritten c hc).1
    rw [ofCompact?_of_not_mem hkeyword fun c hc => (hb.isWritten c hc).2, word?_eq_some_iff.2 hb]
    rfl
  | multiple ha hb =>
    have hkeyword := ne_keyword_of_forall_isWritten (isWritten_multiple ha hb)
    rw [ofCompact?_append hkeyword fun c hc => (ha.isWritten c hc).2, coefficient?_eq_some_iff.2 ha,
      offset?_eq_some_iff.2 hb]
    rfl

/-! Canonical texts. -/

theorem natural?_toDigits (k : Nat) : natural? (Nat.toDigits 10 k) = some k := by
  have hdigit : (Nat.toDigits 10 k).all Char.isDigit = true :=
    List.all_eq_true.2 fun c hc => Nat.isDigit_of_mem_toDigits (by decide) (by decide) hc
  have hempty : (Nat.toDigits 10 k).isEmpty = false := by simp [Nat.toDigits_ne_nil]
  have hvalue := Nat.ofDigitChars_ten_toDigits (n := k)
  rw [Nat.ofDigitChars_eq_foldl] at hvalue
  rw [natural?, hdigit, hempty]
  exact congrArg some hvalue

theorem toList_intText (n : Int) :
    (intText n).toList = (if n < 0 then ['-'] else []) ++ Nat.toDigits 10 n.natAbs := by
  unfold intText
  split <;> simp [Nat.toList_repr]

theorem digits_toDigits (k : Nat) : Digits (Nat.toDigits 10 k) k :=
  natural?_eq_some_iff.1 (natural?_toDigits k)

theorem digits_intText (k : Nat) : Digits (intText k).toList k := by
  rw [toList_intText, if_neg (by omega), Int.natAbs_natCast]
  exact digits_toDigits k

theorem signed_intText_of_neg (h : n < 0) : Signed (intText n).toList n := by
  obtain ⟨k, rfl⟩ : ∃ k : Nat, n = -k := ⟨n.natAbs, by omega⟩
  rw [toList_intText, if_pos h, Int.natAbs_neg, Int.natAbs_natCast]
  exact .minus (digits_toDigits k)

theorem numeral_intText (n : Int) : Numeral (intText n).toList n := by
  rcases Int.lt_or_le n 0 with hneg | hpos
  · exact .signed (signed_intText_of_neg hneg)
  · obtain ⟨k, rfl⟩ := Int.eq_ofNat_of_zero_le hpos
    exact .unsigned (digits_intText k)

theorem offset_intText (b : Int32) :
    Offset (if b = 0 then [] else if 0 < b then '+' :: (intText b.toInt).toList
      else (intText b.toInt).toList) b.toInt := by
  split
  · rename_i hzero
    rw [hzero]
    exact .absent
  · rename_i hne
    split
    · rename_i hpos
      obtain ⟨k, hk⟩ := Int.eq_ofNat_of_zero_le (Int.le_of_lt (Int32.lt_iff_toInt_lt.1 hpos))
      rw [hk]
      exact .signed (.plus (digits_intText k))
    · rename_i hnonpos
      have hle : b.toInt ≤ (0 : Int32).toInt := Int32.le_iff_toInt_le.1 (Int32.not_lt.1 hnonpos)
      have hneg : b.toInt < 0 := Int.lt_iff_le_and_ne.2 ⟨hle, fun h => hne (Int32.toInt_inj.1 h)⟩
      exact .signed (signed_intText_of_neg hneg)

theorem toList_render (f : Formula) : f.render.toList =
    if f.a = 0 then (intText f.b.toInt).toList
    else (intText f.a.toInt).toList ++ 'n' ::
      (if f.b = 0 then []
      else if 0 < f.b then '+' :: (intText f.b.toInt).toList
      else (intText f.b.toInt).toList) := by
  unfold render
  split
  · rfl
  · split
    · simp
    · split <;> simp

theorem writes_render (f : Formula) :
    Writes f.render.toList f ∧ ∀ c ∈ f.render.toList, IsWritten c := by
  obtain ⟨a, b⟩ := f
  rw [toList_render]
  split
  · rename_i ha
    subst ha
    have hb := numeral_intText b.toInt
    exact ⟨.constant hb, fun c hc => (hb.isWritten c hc).1⟩
  · have ha : Coefficient (intText a.toInt).toList a.toInt := .numeral (numeral_intText a.toInt)
    have hb := offset_intText b
    exact ⟨.multiple ha hb, isWritten_multiple ha hb⟩

theorem isWritten_of_mem_render (h : c ∈ f.render.toList) : IsWritten c := (writes_render f).2 c h

theorem ofChars?_render (f : Formula) : ofChars? f.render.toList = some f := by
  obtain ⟨hwrites, hwritten⟩ := writes_render f
  rw [← compact_eq_self hwritten] at hwrites
  exact ofCompact?_of_writes hwrites

/-- The texts that are read are those of the grammar, each as the formula that it stands for. Every
formula is read from its canonical text. -/
theorem parse?_eq_some_iff :
    (∀ text f, parse? text = some f ↔ Writes (compact text.toList) f) ∧
      ∀ f : Formula, parse? f.render = some f :=
  ⟨fun _ _ => ⟨writes_of_ofCompact?, ofCompact?_of_writes⟩, ofChars?_render⟩

/-- The least and the greatest coefficient and offset, with leading zeros, blanks and a capital. -/
example : parse? " -0002147483648 N\t+ 2147483647" = some ⟨-0x80000000, 0x7fffffff⟩ ∧
    parse? "2147483648n" = none := by decide

end DomQuery.Formula
