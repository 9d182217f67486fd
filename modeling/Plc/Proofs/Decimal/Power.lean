import Mathlib.Algebra.Order.Field.Rat
import Mathlib.Data.Rat.Cast.Order
import Mathlib.Tactic.FieldSimp
import Mathlib.Tactic.Ring
import Plc.Proofs.Value.Admits

/-! Powers are exact. Products of decimals are exact whatever scale they get, and repeated
squaring never changes what is left to compute. -/

namespace Plc

/-! ## What a decimal is worth -/

namespace Decimal

def toRat (number : Decimal) : ℚ :=
  number.digits * 10 ^ (-number.scale)

@[simp] theorem toRat_one : one.toRat = 1 := by
  simp [toRat, one]

theorem toRat_dropZeros (count : Nat) (number : Decimal) :
    (dropZeros count number).toRat = number.toRat := by
  induction count generalizing number with
  | zero => rfl
  | succ count induction =>
      rw [dropZeros]
      split
      · rename_i divides
        have digits : (number.digits : ℚ) = (number.digits / 10 : ℤ) * 10 := by
          exact_mod_cast (Int.ediv_mul_cancel (Int.dvd_of_emod_eq_zero divides)).symm
        have shorter : toRat ⟨number.digits / 10, number.scale - 1⟩ = number.toRat := by
          simp only [toRat]
          rw [digits, neg_sub, sub_eq_neg_add, zpow_add_one₀ (by norm_num), mul_assoc,
            mul_comm (10 : ℚ)]
        exact (induction _).trans shorter
      · rfl

theorem toRat_normalize (number : Decimal) : number.normalize.toRat = number.toRat := by
  rw [normalize]
  split
  · rename_i zero
    simp [toRat, zero]
  · exact toRat_dropZeros _ _

theorem toRat_of_isOne {number : Decimal} (isOne : number.isOne = true) : number.toRat = 1 := by
  simp only [Decimal.isOne, Bool.and_eq_true, decide_eq_true_eq, beq_iff_eq] at isOne
  rcases isOne with ⟨⟨nonnegative, -⟩, digits⟩
  have power : (10 : ℚ) ^ number.scale = (tenTo number.scale.toNat : ℤ) := by
    rw [← Int.toNat_of_nonneg nonnegative, zpow_natCast, Int.toNat_natCast, tenTo, Nat.pow_eq]
    push_cast
    rfl
  rw [toRat, digits, ← power, ← zpow_add₀ (by norm_num), add_neg_cancel, zpow_zero]

theorem toRat_mul (left right : Decimal) : (left.mul right).toRat = left.toRat * right.toRat := by
  rw [mul]
  split
  · rename_i isOne
    rw [toRat_normalize, toRat_of_isOne isOne, one_mul]
  · split
    · rename_i isOne
      rw [toRat_normalize, toRat_of_isOne isOne, mul_one]
    · simp only [toRat]
      rw [neg_add, zpow_add₀ (by norm_num)]
      push_cast
      ring

end Decimal

/-! ## Repeated squaring -/

section

variable {M : Type} [Monoid M] (value : α → M) {multiply : α → α → α}

/-- One step of repeated squaring leaves the product of the result and the power to be computed
as it is. -/
theorem mul_pow_halved (result base : M) (exponent : Nat) :
    (if exponent % 2 = 1 then result * base else result) * (base * base) ^ (exponent / 2) =
      result * base ^ exponent := by
  have halves : exponent = exponent % 2 + 2 * (exponent / 2) := by omega
  conv_rhs => rw [halves, pow_add, pow_mul, pow_two]
  split
  · rename_i odd
    rw [odd, pow_one, mul_assoc]
  · have even : exponent % 2 = 0 := by omega
    rw [even, pow_zero, one_mul]

theorem squareAndMultiply_eq
    (exact : ∀ left right, value (multiply left right) = value left * value right)
    {steps exponent : Nat} (enough : exponent ≤ steps) (result base : α) :
    value (squareAndMultiply multiply steps result base exponent) =
      value result * value base ^ exponent := by
  induction steps generalizing result base exponent with
  | zero =>
      have zero : exponent = 0 := by omega
      rw [squareAndMultiply, zero, pow_zero, mul_one]
  | succ steps induction =>
      rw [squareAndMultiply]
      split
      · rename_i zero
        rw [zero, pow_zero, mul_one]
      · have results : value (if exponent % 2 = 1 then multiply result base else result) =
            if exponent % 2 = 1 then value result * value base else value result := by
          rw [apply_ite value, exact]
        -- the base is not squared where no step is left
        have bases : value (if exponent / 2 = 0 then base else multiply base base) ^
            (exponent / 2) = (value base * value base) ^ (exponent / 2) := by
          split
          · rename_i last
            rw [last, pow_zero, pow_zero]
          · rw [exact]
        dsimp only
        rw [induction (by omega), results, bases, mul_pow_halved]

theorem powerBySquaring_eq
    (exact : ∀ left right, value (multiply left right) = value left * value right) {one : α}
    (unit : value one = 1) (base : α) (exponent : Nat) :
    value (powerBySquaring multiply one base exponent) = value base ^ exponent := by
  rw [powerBySquaring, squareAndMultiply_eq value exact (Nat.le_refl exponent), unit, one_mul]

end

/-! ## Powers of values -/

namespace Value

def toRat? : Value → Option ℚ
  | .integer number => some number
  | .decimal number => some number.toRat
  | _ => none

theorem toRat?_raised {base : Value} {number : ℚ} (worth : base.toRat? = some number)
    (count : Nat) : (base.raised count).toRat? = some (number ^ count) := by
  cases base with
  | integer base =>
      cases worth
      have raised := powerBySquaring_eq (fun number : ℤ => (number : ℚ))
        (fun left right => Int.cast_mul left right) Int.cast_one base count
      exact congrArg some raised
  | decimal base =>
      cases worth
      exact congrArg some (powerBySquaring_eq Decimal.toRat Decimal.toRat_mul Decimal.toRat_one base
        count)
  | _ => cases worth

theorem isNumber_of_toRat? {base : Value} {number : ℚ} (worth : base.toRat? = some number) :
    base.isNumber = true := by
  cases base with
  | integer _ | decimal _ => rfl
  | _ => cases worth

theorem operate_power_eq_ok_iff (lists : Lists) {base : Value} (number : base.isNumber = true)
    (exponent : ℤ) (result : Value) :
    operate lists .power base (.integer exponent) = .ok result ↔
      (0 ≤ exponent ∧ exponent < 2 ^ 64) ∧
        result = if exponent = 0 then .integer 1 else base.raised exponent.toNat := by
  have limit : (exponentLimit : ℤ) = 2 ^ 64 := rfl
  rw [operate]
  dsimp only
  rw [power_of_isNumber number, limit]
  by_cases negative : exponent < 0
  · rw [if_pos negative]
    constructor
    · intro given
      cases given
    · rintro ⟨bounds, -⟩
      exact absurd negative bounds.1.not_gt
  rw [if_neg negative]
  by_cases zero : exponent = 0
  · rw [if_pos zero, if_pos zero, zero]
    constructor
    · intro given
      cases given
      exact ⟨by decide, rfl⟩
    · rintro ⟨-, same⟩
      rw [same]
      rfl
  rw [if_neg zero, if_neg zero]
  by_cases large : 2 ^ 64 ≤ exponent
  · rw [if_pos large]
    constructor
    · intro given
      cases given
    · rintro ⟨bounds, -⟩
      exact absurd large bounds.2.not_ge
  · rw [if_neg large]
    constructor
    · intro given
      cases given
      exact ⟨⟨not_lt.mp negative, not_le.mp large⟩, rfl⟩
    · rintro ⟨-, same⟩
      rw [same]
      rfl

/-- A number has a power to every integer of at most 64 bits that is not negative, and to no
other one. It is the exact power, and of the kind of the base unless the exponent is zero. -/
theorem operate_power_exact (lists : Lists) {base : Value} {number : ℚ}
    (worth : base.toRat? = some number) (exponent : ℤ) :
    ((∃ result, operate lists .power base (.integer exponent) = .ok result) ↔
      0 ≤ exponent ∧ exponent < 2 ^ 64) ∧
    ∀ result, operate lists .power base (.integer exponent) = .ok result →
      result.toRat? = some (number ^ exponent) ∧
      result.kind = if base.kind = .integer ∨ exponent = 0 then .integer else .decimal := by
  have gives := operate_power_eq_ok_iff lists (isNumber_of_toRat? worth) exponent
  constructor
  · constructor
    · rintro ⟨result, given⟩
      exact ((gives result).mp given).1
    · exact fun bounds => ⟨_, (gives _).mpr ⟨bounds, rfl⟩⟩
  · intro result given
    rcases (gives result).mp given with ⟨⟨nonnegative, -⟩, rfl⟩
    split
    · rename_i zero
      rw [zero, zpow_zero, if_pos (.inr rfl)]
      exact ⟨congrArg some Int.cast_one, rfl⟩
    · rename_i positive
      have count : (exponent.toNat : ℤ) = exponent := Int.toNat_of_nonneg nonnegative
      refine ⟨?_, ?_⟩
      · rw [toRat?_raised worth, ← zpow_natCast, count]
      · rw [kind_raised]
        cases base with
        | integer _ | decimal _ => simp [kind, positive]
        | _ => cases worth

/-- A negative base of several digits to an odd power, and to one that is just too large. -/
theorem operate_power_exact_of_cube :
    toRat? (.decimal ⟨-150, 2⟩) = some (-3 / 2) ∧
    operate #[] .power (.decimal ⟨-150, 2⟩) (.integer 3) = .ok (.decimal ⟨-337500, 5⟩) ∧
    toRat? (.decimal ⟨-337500, 5⟩) = some ((-3 / 2) ^ (3 : ℤ)) ∧
    ¬∃ result, operate #[] .power (.decimal ⟨-150, 2⟩) (.integer (2 ^ 64)) = .ok result := by
  have worth : toRat? (.decimal ⟨-150, 2⟩) = some (-3 / 2) := by
    rw [toRat?, Decimal.toRat]
    norm_num
  have computed : operate #[] .power (.decimal ⟨-150, 2⟩) (.integer 3) =
      .ok (.decimal ⟨-337500, 5⟩) := by decide
  refine ⟨worth, computed, ((operate_power_exact #[] worth 3).2 _ computed).1, fun given => ?_⟩
  exact absurd ((operate_power_exact #[] worth (2 ^ 64)).1.mp given).2 (lt_irrefl _)

end Value

end Plc
