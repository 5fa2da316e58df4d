import DomQuery.Selector.Lexeme

/-!
The classes of characters that the scanners go by, and which of them exclude each other.
-/
namespace DomQuery.Selector
open Text

variable {c : Char}

theorem forall_of_all {P : Char → Prop} [DecidablePred P] {cs : List Char}
    (h : cs.all (P ·) = true) : ∀ c ∈ cs, P c := by
  simpa using h

theorem isBlank_iff : isBlank c ↔ c.toNat = 32 ∨ (9 ≤ c.toNat ∧ c.toNat ≤ 13) ∨ c.toNat = 0x85 ∨
    c.toNat = 0xa0 ∨ c.toNat = 0x1680 ∨ (0x2000 ≤ c.toNat ∧ c.toNat ≤ 0x200a) ∨
    c.toNat = 0x2028 ∨ c.toNat = 0x2029 ∨ c.toNat = 0x202f ∨ c.toNat = 0x205f ∨
    c.toNat = 0x3000 := by
  simp only [isBlank, Bool.or_eq_true, Bool.and_eq_true, beq_iff_eq, decide_eq_true_eq,
    ← Char.toNat_inj, Char.le_def, UInt32.le_iff_toNat_le]
  simp [or_assoc]

theorem isAlphanum_iff : c.isAlphanum ↔ (65 ≤ c.toNat ∧ c.toNat ≤ 90) ∨
    (97 ≤ c.toNat ∧ c.toNat ≤ 122) ∨ (48 ≤ c.toNat ∧ c.toNat ≤ 57) := by
  have halpha : c.isAlpha = (c.isUpper || c.isLower) := rfl
  have hupper : c.isUpper = decide ('A'.val ≤ c.val ∧ c.val ≤ 'Z'.val) := rfl
  have hlower : c.isLower = (decide ('a'.val ≤ c.val) && decide (c.val ≤ 'z'.val)) := rfl
  simp only [Char.isAlphanum, halpha, hupper, hlower, Char.isDigit, Bool.or_eq_true,
    Bool.and_eq_true, decide_eq_true_eq, UInt32.le_iff_toNat_le, ge_iff_le]
  simp [or_assoc]

theorem isDigit_iff : c.isDigit ↔ 48 ≤ c.toNat ∧ c.toNat ≤ 57 := by
  simp only [Char.isDigit, Bool.and_eq_true, decide_eq_true_eq, UInt32.le_iff_toNat_le, ge_iff_le]
  simp

theorem isNameChar_iff : isNameChar c ↔ c.isAlphanum ∨ c.toNat = 45 ∨ c.toNat = 95 ∨
    (128 ≤ c.toNat ∧ ¬ isBlank c) := by
  simp only [isNameChar, Bool.or_eq_true, Bool.and_eq_true, beq_iff_eq, decide_eq_true_eq,
    ← Char.toNat_inj, Bool.not_eq_true', Bool.not_eq_true]
  simp [or_assoc]

theorem not_isBlank_of_isNameChar (h : isNameChar c) : ¬ isBlank c := by
  rw [isNameChar_iff, isAlphanum_iff] at h
  rw [isBlank_iff] at h ⊢
  omega

theorem isNameChar_of_isDigit (h : c.isDigit) : isNameChar c := by
  rw [isNameChar_iff, isAlphanum_iff]
  rw [isDigit_iff] at h
  omega

theorem ne_backslash_of_isNameChar (h : isNameChar c) : c ≠ '\\' := by
  rintro rfl
  exact absurd h (by decide)

end DomQuery.Selector
