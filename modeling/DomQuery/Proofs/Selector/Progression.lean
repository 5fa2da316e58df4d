import DomQuery.Selector.Formula
import Mathlib.Logic.Basic

/-!
A formula stands for a progression of positions. The test for one position computes in signed words of
64 bits. It has an answer as long as the distance of the position from `b` is such a word, for then the
remainder and the quotient are words too; and its answer is right.
-/
namespace DomQuery.Formula

variable {f : Formula} {position : Nat} {a distance n : Int}

/-- The position is one of `b`, `a + b`, `2 * a + b`, and so on. -/
def Reaches (f : Formula) (position : Nat) : Prop :=
  ∃ n : Nat, f.a.toInt * n + f.b.toInt = position

theorem reaches_iff : f.Reaches position ↔ ∃ n : Nat, f.a.toInt * n = position - f.b.toInt :=
  exists_congr fun n => by omega

/-! Words. -/

theorem word64?_eq_some (hlow : -0x8000000000000000 ≤ n) (hhigh : n < 0x8000000000000000) :
    word64? n = some n := if_pos ⟨hlow, hhigh⟩

theorem word64?_eq_none (h : 0x8000000000000000 ≤ n) : word64? n = none :=
  if_neg fun hword => absurd hword.2 (Int.not_lt.2 h)

theorem toInt_eq_zero_iff (w : Int32) : w.toInt = 0 ↔ w = 0 := Int32.toInt_inj (y := 0)

theorem word64?_tdiv (hlow : -0x8000000000000000 < distance) (hhigh : distance < 0x8000000000000000) :
    word64? (distance.tdiv a) = some (distance.tdiv a) := by
  have hquotient := Int.natAbs_tdiv_le_natAbs distance a
  exact word64?_eq_some (by omega) (by omega)

/-- Division that cuts towards zero finds the natural multiples. -/
theorem tmod_tdiv_iff (ha : a ≠ 0) :
    distance.tmod a = 0 ∧ 0 ≤ distance.tdiv a ↔ ∃ n : Nat, a * n = distance := by
  constructor
  · rintro ⟨hremainder, hquotient⟩
    obtain ⟨k, rfl⟩ := Int.dvd_of_tmod_eq_zero hremainder
    rw [Int.mul_tdiv_cancel_left k ha] at hquotient
    obtain ⟨n, rfl⟩ := Int.eq_ofNat_of_zero_le hquotient
    exact ⟨n, rfl⟩
  · rintro ⟨n, rfl⟩
    rw [Int.mul_tdiv_cancel_left _ ha]
    exact ⟨Int.mul_tmod_right a n, Int.natCast_nonneg n⟩

/-! The test. -/

theorem accepts?_of_a_eq_zero (h : position < 0x8000000000000000) (ha : f.a = 0) :
    f.accepts? position = some (position == f.b.toInt) := by
  rw [accepts?, if_neg (Nat.not_le.2 h), if_pos ha]

theorem accepts?_of_far (h : position < 0x8000000000000000) (ha : f.a ≠ 0)
    (hfar : 0x8000000000000000 ≤ position - f.b.toInt) : f.accepts? position = none := by
  rw [accepts?, if_neg (Nat.not_le.2 h), if_neg ha, word64?_eq_none hfar]
  rfl

/-- The distance is above the least word, since `b` has 32 bits. -/
theorem accepts?_of_near (ha : f.a ≠ 0) (hnear : position - f.b.toInt < 0x8000000000000000)
    (h : position < 0x8000000000000000) : f.accepts? position =
      some ((position - f.b.toInt).tmod f.a.toInt == 0 && 0 ≤ (position - f.b.toInt).tdiv f.a.toInt) := by
  have hlow : -0x8000000000000000 < position - f.b.toInt := by
    have hhigh := Int32.toInt_lt f.b
    omega
  rw [accepts?, if_neg (Nat.not_le.2 h), if_neg ha, word64?_eq_some (Int.le_of_lt hlow) hnear,
    Option.bind_eq_bind, Option.bind_some, remainder?, word64?_tdiv hlow hnear]
  by_cases hremainder : (position - f.b.toInt).tmod f.a.toInt = 0 <;> simp [hremainder]

theorem isSome_accepts? (h : position < 0x7fffffff80000000) (f : Formula) :
    (f.accepts? position).isSome := by
  have hlow := Int32.le_toInt f.b
  have hword : position < 0x8000000000000000 := by omega
  by_cases ha : f.a = 0
  · rw [accepts?_of_a_eq_zero hword ha]
    rfl
  · rw [accepts?_of_near ha (by omega) hword]
    rfl

/-- Up to the greatest word, the test overflows if and only if `a` is not zero and the distance from `b` is
no word. Where it does not overflow, it finds the positions that the formula stands for. -/
theorem accepts_iff_reaches (f : Formula) (position : Nat) (h : position < 0x8000000000000000) :
    (f.accepts? position = none ↔ f.a ≠ 0 ∧ 0x8000000000000000 ≤ position - f.b.toInt) ∧
      ∀ answer, f.accepts? position = some answer → (answer = true ↔ f.Reaches position) := by
  by_cases ha : f.a = 0
  · have hzero : f.a.toInt = 0 := (toInt_eq_zero_iff f.a).2 ha
    rw [accepts?_of_a_eq_zero h ha]
    refine ⟨iff_of_false nofun fun hfar => hfar.1 ha, ?_⟩
    rintro _ ⟨⟩
    rw [reaches_iff, hzero, beq_iff_eq]
    simp only [Int.zero_mul, exists_const]
    omega
  · have hne : f.a.toInt ≠ 0 := (toInt_eq_zero_iff f.a).not.2 ha
    by_cases hfar : 0x8000000000000000 ≤ position - f.b.toInt
    · rw [accepts?_of_far h ha hfar]
      exact ⟨iff_of_true rfl ⟨ha, hfar⟩, nofun⟩
    · rw [accepts?_of_near ha (Int.not_le.1 hfar) h]
      refine ⟨iff_of_false nofun fun hoverflow => hfar hoverflow.2, ?_⟩
      rintro _ ⟨⟩
      rw [reaches_iff, ← tmod_tdiv_iff hne, Bool.and_eq_true, beq_iff_eq, decide_eq_true_iff]

/-- The greatest distance that is a word, and the one after it. -/
theorem accepts_iff_reaches_edge :
    let last : Nat := 0x7fffffff7fffffff
    (last < 0x8000000000000000 ∧ accepts? ⟨1, -0x80000000⟩ last = some true ∧
      Reaches ⟨1, -0x80000000⟩ last) ∧
      last + 1 < 0x8000000000000000 ∧ accepts? ⟨1, -0x80000000⟩ (last + 1) = none := by
  intro last
  have hlast : last < 0x8000000000000000 := by decide
  have hnext : last + 1 < 0x8000000000000000 := by decide
  have haccepts : accepts? ⟨1, -0x80000000⟩ last = some true := by decide
  obtain ⟨-, hreaches⟩ := accepts_iff_reaches ⟨1, -0x80000000⟩ last hlast
  obtain ⟨hoverflow, -⟩ := accepts_iff_reaches ⟨1, -0x80000000⟩ (last + 1) hnext
  exact ⟨⟨hlast, haccepts, (hreaches true haccepts).1 rfl⟩, hnext, hoverflow.2 (by decide)⟩

/-- The formula `n-1` reaches the greatest position, but the distance is no word. -/
theorem not_accepts_greatest :
    Reaches ⟨1, -1⟩ 0x7fffffffffffffff ∧ accepts? ⟨1, -1⟩ 0x7fffffffffffffff = none :=
  ⟨⟨0x8000000000000000, by decide⟩, by decide⟩

end DomQuery.Formula
