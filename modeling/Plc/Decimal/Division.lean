import Plc.Decimal.Basic

/-! Division that rounds to the nearest digit, and powers by repeated
squaring. -/

namespace Plc

/-- The integer nearest to `numerator / denominator`; of two equally near ones,
the even one. -/
def roundHalfEven (numerator denominator : Int) : Int :=
  let quotient := numerator.tdiv denominator
  let remainder := numerator.tmod denominator
  let away := quotient + (if numerator < 0 ↔ denominator < 0 then 1 else -1)
  match Ord.compare (2 * remainder.natAbs) denominator.natAbs with
  | .lt => quotient
  | .gt => away
  | .eq => if quotient % 2 = 0 then quotient else away

example : roundHalfEven 5 2 = 2 ∧ roundHalfEven 7 2 = 4 ∧ roundHalfEven (-5) 2 = -2 := by
  decide

/-- Repeated squaring: multiplies `result` by `base` once for every unit of
`exponent`. Halving the exponent at every step, `exponent` steps are enough. -/
def squareAndMultiply (multiply : α → α → α) : Nat → α → α → Nat → α
  | 0, result, _, _ => result
  | steps + 1, result, base, exponent =>
      if exponent = 0 then
        result
      else
        let result := if exponent % 2 = 1 then multiply result base else result
        let base := if exponent / 2 = 0 then base else multiply base base
        squareAndMultiply multiply steps result base (exponent / 2)

/-- `base` to a natural power, starting from `one`. -/
def powerBySquaring (multiply : α → α → α) (one base : α) (exponent : Nat) : α :=
  squareAndMultiply multiply exponent one base exponent

example : powerBySquaring Int.mul 1 3 5 = 243 := by decide

namespace Decimal

/-- The quotient at the dividend's scale, rounded half to even. The divisor
must not be zero. -/
def divide (dividend divisor : Decimal) : Decimal :=
  ⟨roundHalfEven
      (dividend.digits * tenTo divisor.scale.toNat)
      (divisor.digits * tenTo (-divisor.scale).toNat),
    dividend.scale⟩

example : divide ⟨100, 1⟩ ⟨4, 0⟩ = ⟨25, 1⟩ := by decide

def power (base : Decimal) (exponent : Nat) : Decimal :=
  powerBySquaring mul one base exponent

example : power ⟨150, 2⟩ 1 = ⟨15, 1⟩ := by decide

end Decimal

end Plc
