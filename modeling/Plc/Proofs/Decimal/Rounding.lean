import Mathlib.Algebra.Order.Round
import Mathlib.Algebra.Order.Field.Rat
import Mathlib.Data.Rat.Floor
import Mathlib.Tactic.LinearCombination
import Mathlib.Tactic.Linarith
import Plc.Value.Operation

/-! Division of decimals gives the decimal at the dividend's scale that is nearest to the exact
quotient, and of two equally near ones the one with even digits. -/

namespace Plc

/-! ## Nearest integers -/

/-- The integer is nearest to the number, and even if another one is as near. -/
structure RoundsHalfEven (number : ℚ) (rounded : ℤ) : Prop where
  nearest : ∀ other : ℤ, |rounded - number| ≤ |other - number|
  even : ∀ other : ℤ, other ≠ rounded → |other - number| = |rounded - number| → Even rounded

variable {number : ℚ} {rounded other : ℤ}

theorem one_le_abs_sub (different : other ≠ rounded) : (1 : ℚ) ≤ |(other : ℚ) - rounded| := by
  have apart : 1 ≤ |other - rounded| := Int.one_le_abs (sub_ne_zero.mpr different)
  exact_mod_cast apart

/-- Two different integers are at least one apart, so one of them is not nearer than a half. -/
theorem half_le_abs_sub (close : |rounded - number| ≤ 1 / 2) (different : other ≠ rounded) :
    1 / 2 ≤ |other - number| := by
  have apart := one_le_abs_sub different
  have detour := abs_sub_le (other : ℚ) number rounded
  rw [abs_sub_comm number] at detour
  linarith

theorem roundsHalfEven_iff :
    RoundsHalfEven number rounded ↔
      |rounded - number| ≤ 1 / 2 ∧ (|rounded - number| = 1 / 2 → Even rounded) := by
  constructor
  · intro rounds
    have close : |rounded - number| ≤ 1 / 2 := by
      have found := abs_sub_round number
      rw [abs_sub_comm] at found
      exact (rounds.nearest (round number)).trans found
    refine ⟨close, fun tie => ?_⟩
    -- the integer on the other side of the number is as near
    rcases abs_cases (rounded - number) with ⟨above, _⟩ | ⟨below, _⟩
    · refine rounds.even (rounded - 1) (by omega) ?_
      rw [tie, Int.cast_sub, Int.cast_one, abs_sub_comm, abs_of_nonneg] <;> linarith
    · refine rounds.even (rounded + 1) (by omega) ?_
      rw [tie, Int.cast_add, Int.cast_one, abs_of_nonneg] <;> linarith
  · rintro ⟨close, even⟩
    refine ⟨fun other => ?_, fun other different same => even ?_⟩
    · by_cases same : other = rounded
      · rw [same]
      · exact close.trans (half_le_abs_sub close same)
    · exact le_antisymm close (same ▸ half_le_abs_sub close different)

/-- No number is rounded to two integers: they would both be even, but at most one apart. -/
theorem RoundsHalfEven.unique (first : RoundsHalfEven number rounded)
    (second : RoundsHalfEven number other) : other = rounded := by
  by_contra different
  have same : |other - number| = |rounded - number| :=
    le_antisymm (second.nearest rounded) (first.nearest other)
  rcases first.even other different same with ⟨half, rounded_eq⟩
  rcases second.even rounded (Ne.symm different) same.symm with ⟨otherHalf, other_eq⟩
  have apart : |(other : ℚ) - rounded| ≤ 1 := by
    have detour := abs_sub_le (other : ℚ) number rounded
    rw [abs_sub_comm number] at detour
    linarith [(roundsHalfEven_iff.mp first).1, (roundsHalfEven_iff.mp second).1]
  have apart : |other - rounded| ≤ 1 := by exact_mod_cast apart
  rw [abs_le] at apart
  omega

theorem roundsHalfEven_div_iff {numerator denominator : ℤ} (nonzero : denominator ≠ 0) :
    RoundsHalfEven (numerator / denominator) rounded ↔
      2 * |rounded * denominator - numerator| ≤ |denominator| ∧
        (2 * |rounded * denominator - numerator| = |denominator| → Even rounded) := by
  have divisor : (denominator : ℚ) ≠ 0 := by exact_mod_cast nonzero
  have positive : 0 < |(denominator : ℚ)| := abs_pos.mpr divisor
  have distance : |rounded - (numerator : ℚ) / denominator| =
      |(rounded * denominator - numerator : ℚ)| / |(denominator : ℚ)| := by
    rw [← abs_div, sub_div, mul_div_cancel_right₀ _ divisor]
  have close : |rounded - (numerator : ℚ) / denominator| ≤ 1 / 2 ↔
      2 * |rounded * denominator - numerator| ≤ |denominator| := by
    rw [distance, div_le_div_iff₀ positive two_pos, one_mul, mul_comm]
    exact_mod_cast Iff.rfl
  have tie : |rounded - (numerator : ℚ) / denominator| = 1 / 2 ↔
      2 * |rounded * denominator - numerator| = |denominator| := by
    rw [distance, div_eq_div_iff positive.ne' two_ne_zero, one_mul, mul_comm]
    exact_mod_cast Iff.rfl
  rw [roundsHalfEven_iff, close, tie]

/-! ## Rounding a quotient -/

theorem tmod_bounds (numerator : ℤ) {denominator : ℤ} (nonzero : denominator ≠ 0) :
    (numerator.tmod denominator).natAbs < denominator.natAbs ∧
      (0 ≤ numerator ∧ 0 ≤ numerator.tmod denominator ∨
        numerator < 0 ∧ numerator.tmod denominator ≤ 0) := by
  constructor
  · rw [Int.natAbs_tmod]
    exact Nat.mod_lt _ (Int.natAbs_pos.mpr nonzero)
  · rcases le_or_gt 0 numerator with positive | negative
    · exact .inl ⟨positive, Int.tmod_nonneg denominator positive⟩
    · refine .inr ⟨negative, ?_⟩
      have opposite := Int.tmod_nonneg denominator (Int.neg_nonneg.mpr negative.le)
      rw [Int.neg_tmod] at opposite
      omega

/-- The quotient toward zero is less than one from the fraction. Where it is not the nearest
integer, the next one away from zero is: above it if the signs agree, otherwise below it. -/
theorem roundHalfEven_close {numerator denominator : ℤ} (nonzero : denominator ≠ 0) :
    2 * |roundHalfEven numerator denominator * denominator - numerator| ≤ |denominator| ∧
      (2 * |roundHalfEven numerator denominator * denominator - numerator| = |denominator| →
        Even (roundHalfEven numerator denominator)) := by
  have whole := Int.mul_tdiv_add_tmod numerator denominator
  rcases tmod_bounds numerator nonzero with ⟨small, sign⟩
  rw [Int.abs_eq_natAbs, Int.abs_eq_natAbs, Int.even_iff]
  unfold roundHalfEven
  generalize numerator.tdiv denominator = quotient at *
  generalize numerator.tmod denominator = remainder at *
  have stays : (quotient * denominator - numerator).natAbs = remainder.natAbs := by
    rw [← whole, mul_comm, sub_add_cancel_left, Int.natAbs_neg]
  have away : remainder ≠ 0 →
      ((quotient + if numerator < 0 ↔ denominator < 0 then 1 else -1) * denominator -
        numerator).natAbs + remainder.natAbs = denominator.natAbs := by
    intro rest
    split
    · have moved : (quotient + 1) * denominator - numerator = denominator - remainder := by
        linear_combination whole
      omega
    · have moved : (quotient + -1) * denominator - numerator = -denominator - remainder := by
        linear_combination whole
      omega
  dsimp only
  cases compared : compare (2 * remainder.natAbs) denominator.natAbs with
  | lt =>
      rw [Nat.compare_eq_lt] at compared
      dsimp only
      omega
  | gt =>
      rw [Nat.compare_eq_gt] at compared
      have moved := away (by omega)
      dsimp only
      omega
  | eq =>
      rw [Nat.compare_eq_eq] at compared
      have moved := away (by omega)
      dsimp only
      split
      · omega
      · refine ⟨by omega, fun _ => ?_⟩
        split <;> omega

/-! ## Quotients of decimals -/

namespace Decimal

/-- The digits of the exact quotient at the scale of the dividend, which need not be whole. -/
def exactDigits (dividend divisor : Decimal) : ℚ :=
  dividend.digits * 10 ^ divisor.scale / divisor.digits

/-- The scale of the divisor moves either the dividend or the divisor. -/
theorem exactDigits_eq (dividend divisor : Decimal) :
    dividend.exactDigits divisor =
      (dividend.digits * tenTo divisor.scale.toNat : ℤ) /
        (divisor.digits * tenTo (-divisor.scale).toNat : ℤ) := by
  have shifted : (10 : ℚ) ^ divisor.scale =
      10 ^ divisor.scale.toNat / 10 ^ (-divisor.scale).toNat := by
    rw [← zpow_natCast, ← zpow_natCast, ← zpow_sub₀ (by norm_num)]
    congr 1
    omega
  rw [exactDigits, shifted]
  simp only [tenTo, Nat.pow_eq]
  push_cast
  rw [← mul_div_assoc, div_div, mul_comm (divisor.digits : ℚ)]

theorem divide_rounds (dividend : Decimal) {divisor : Decimal} (nonzero : divisor.digits ≠ 0) :
    RoundsHalfEven (dividend.exactDigits divisor) (dividend.divide divisor).digits := by
  have power : (tenTo (-divisor.scale).toNat : ℤ) ≠ 0 := by
    have positive : 0 < tenTo (-divisor.scale).toNat := Nat.pow_pos (by decide)
    omega
  have divides := Int.mul_ne_zero nonzero power
  rw [exactDigits_eq]
  exact (roundsHalfEven_div_iff divides).mpr (roundHalfEven_close divides)

end Decimal

/-- The quotient of two decimals has the scale of the dividend, and its digits are the only
integer to which the exact ones are rounded. That holds of every fraction that is equal to these. -/
theorem Value.operate_divide_rounds (lists : Lists) (dividend divisor : Decimal)
    (nonzero : divisor.digits ≠ 0) :
    ∃ digits : ℤ,
      operate lists .divide (.decimal dividend) (.decimal divisor) =
        .ok (.decimal ⟨digits, dividend.scale⟩) ∧
      (∀ other : ℤ, RoundsHalfEven (dividend.exactDigits divisor) other ↔ other = digits) ∧
      ∀ numerator denominator : ℤ, denominator ≠ 0 →
        (numerator / denominator : ℚ) = dividend.exactDigits divisor →
        2 * |digits * denominator - numerator| ≤ |denominator| ∧
          (2 * |digits * denominator - numerator| = |denominator| → Even digits) := by
  have rounds := dividend.divide_rounds nonzero
  refine ⟨(dividend.divide divisor).digits, ?_, fun other => ⟨rounds.unique, ?_⟩, ?_⟩
  · rw [operate]
    simp only [quotient, if_neg nonzero]
    rfl
  · rintro rfl
    exact rounds
  · intro numerator denominator divides same
    rw [← same] at rounds
    exact (roundsHalfEven_div_iff divides).mp rounds

/-- A quotient of -0.15 is as near to -0.1 as it is to -0.2. The divisor has a negative scale. -/
theorem Value.operate_divide_rounds_of_tie :
    (⟨5, -1⟩ : Decimal).digits ≠ 0 ∧
    operate #[] .divide (.decimal ⟨-75, 1⟩) (.decimal ⟨5, -1⟩) = .ok (.decimal ⟨-2, 1⟩) ∧
    RoundsHalfEven (Decimal.exactDigits ⟨-75, 1⟩ ⟨5, -1⟩) (-2) := by
  have nonzero : (⟨5, -1⟩ : Decimal).digits ≠ 0 := by decide
  rcases operate_divide_rounds #[] ⟨-75, 1⟩ ⟨5, -1⟩ nonzero with ⟨digits, computed, rounds, -⟩
  have evaluated : operate #[] .divide (.decimal ⟨-75, 1⟩) (.decimal ⟨5, -1⟩) =
      .ok (.decimal ⟨-2, 1⟩) := by decide
  rw [evaluated] at computed
  cases computed
  exact ⟨nonzero, evaluated, (rounds (-2)).mpr rfl⟩

end Plc
