import Plc.Decimal.Basic

/-! The text of a decimal number. -/

namespace Plc.Decimal

/-- A fraction with more zeros than this between the point and its first digit
is written with an exponent. -/
def leadingZeroLimit : Int := 5

/-- An integer with more implied zeros than this is written with an exponent. -/
def trailingZeroLimit : Int := 15

/-- The text of the absolute value, from its decimal digits. -/
def layout (digits : List Char) (scale : Int) : List Char :=
  if scale ≤ 0 then
    if -scale ≤ trailingZeroLimit then
      digits ++ List.replicate (-scale).toNat '0'
    else
      digits ++ ['e', '+'] ++ (toString (-scale)).toList
  else if scale - digits.length > leadingZeroLimit then
    let exponent := digits.length - scale - 1
    let fraction := if digits.length ≤ 1 then [] else '.' :: digits.drop 1
    digits.take 1 ++ fraction ++ 'E' :: (toString exponent).toList
  else
    let places := scale.toNat
    let padded := List.replicate (places + 1 - digits.length) '0' ++ digits
    padded.take (padded.length - places) ++ '.' :: padded.drop (padded.length - places)

/-- Zero is written `0` at every scale. -/
def display (number : Decimal) : String :=
  if number.digits = 0 then
    "0"
  else
    let magnitude := layout (Nat.toDigits 10 number.digits.natAbs) number.scale
    String.ofList (if number.digits < 0 then '-' :: magnitude else magnitude)

example : display ⟨-150, 2⟩ = "-1.50" := by decide

example : display ⟨12, 9⟩ = "1.2E-8" := by decide

example : display ⟨1, -2⟩ = "100" := by decide

end Plc.Decimal
