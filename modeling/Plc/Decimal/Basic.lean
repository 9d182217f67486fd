/-! Decimal numbers of any size. The same number has several representations,
which differ in their scale and are displayed differently. -/

namespace Plc

/-- The number `digits * 10 ^ (-scale)`. -/
structure Decimal where
  digits : Int
  scale : Int
  deriving DecidableEq, Repr

namespace Decimal

def one : Decimal := ⟨1, 0⟩

def tenTo (places : Nat) : Nat := Nat.pow 10 places

/-- The digits of the same number at a scale that is at least its own. -/
def digitsAt (number : Decimal) (scale : Int) : Int :=
  number.digits * tenTo (scale - number.scale).toNat

/-- The same number with `places` more fraction digits. -/
def grow (number : Decimal) (places : Nat) : Decimal :=
  ⟨number.digits * tenTo places, number.scale + places⟩

/-- The most fraction digits a sum takes over from an operand that is zero. -/
def zeroScaleLimit : Nat := 15

/-- The exact sum, at the larger scale. A zero operand only lends its scale to
the other one, and at most `zeroScaleLimit` places of it. -/
def add (left right : Decimal) : Decimal :=
  if right.digits = 0 then
    left.grow (min zeroScaleLimit (right.scale - left.scale).toNat)
  else if left.digits = 0 then
    right.grow (min zeroScaleLimit (left.scale - right.scale).toNat)
  else
    let scale := max left.scale right.scale
    ⟨left.digitsAt scale + right.digitsAt scale, scale⟩

def sub (left right : Decimal) : Decimal :=
  let scale := max left.scale right.scale
  ⟨left.digitsAt scale - right.digitsAt scale, scale⟩

/-- Removes up to `count` trailing zeros. -/
def dropZeros : Nat → Decimal → Decimal
  | 0, number => number
  | count + 1, number =>
      if number.digits % 10 = 0 then
        dropZeros count ⟨number.digits / 10, number.scale - 1⟩
      else
        number

/-- The representation without trailing zeros; the scale may become negative.
The digits bound the number of zeros they can end in. -/
def normalize (number : Decimal) : Decimal :=
  if number.digits = 0 then ⟨0, 0⟩ else dropZeros number.digits.natAbs number

example : normalize ⟨1500, 2⟩ = ⟨15, 0⟩ := by decide

/-- The largest scale at which a number is still recognized to be one. -/
def oneScaleLimit : Int := 38

def isOne (number : Decimal) : Bool :=
  0 ≤ number.scale && number.scale ≤ oneScaleLimit &&
    number.digits == tenTo number.scale.toNat

/-- The exact product. A factor that is one leaves the other normalized;
otherwise the scales add up. -/
def mul (left right : Decimal) : Decimal :=
  if left.isOne then
    right.normalize
  else if right.isOne then
    left.normalize
  else
    ⟨left.digits * right.digits, left.scale + right.scale⟩

def compare (left right : Decimal) : Ordering :=
  let scale := max left.scale right.scale
  Ord.compare (left.digitsAt scale) (right.digitsAt scale)

/-- Equality by numeric value, so `1.0` equals `1.00`. -/
def equals (left right : Decimal) : Bool :=
  left.compare right == .eq

example : equals ⟨10, 1⟩ ⟨100, 2⟩ = true := by decide

/-- Whether the nearest binary64 number is finite: everything from half a unit
above the largest such number rounds to infinity. -/
def fitsBinary64 (number : Decimal) : Bool :=
  let limit := Nat.pow 2 1024 - Nat.pow 2 970
  number.digits.natAbs * tenTo (-number.scale).toNat < limit * tenTo number.scale.toNat

end Decimal

end Plc
