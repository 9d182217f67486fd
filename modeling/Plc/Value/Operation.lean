import Plc.Decimal.Division
import Plc.Value.Error
import Plc.Value.Lists

/-! Binary operators on values. -/

namespace Plc.Value

def isString : Value → Bool
  | .string _ => true
  | _ => false

def isNumber : Value → Bool
  | .integer _ | .decimal _ => true
  | _ => false

def arithmetic (operator : Operator) (onIntegers : Int → Int → Int)
    (onDecimals : Decimal → Decimal → Decimal) :
    Value → Value → Except RuntimeError Value
  | .integer left, .integer right => .ok (.integer (onIntegers left right))
  | .decimal left, .decimal right => .ok (.decimal (onDecimals left right))
  | left, right => .error (.invalidOperation operator left.kind right.kind)

def order (operator : Operator) : Value → Value → Except RuntimeError Ordering
  | .integer left, .integer right => .ok (compare left right)
  | .decimal left, .decimal right => .ok (left.compare right)
  | left, right => .error (.invalidOperation operator left.kind right.kind)

/-- The right operand only has to be a boolean where the left one does not
decide. -/
def conjunction (left right : Value) : Except RuntimeError Value := do
  if ← left.asBoolean then
    return .boolean (← right.asBoolean)
  else
    return .boolean false

def disjunction (left right : Value) : Except RuntimeError Value := do
  if ← left.asBoolean then
    return .boolean true
  else
    return .boolean (← right.asBoolean)

/-- Integers are divided toward zero; decimals at the dividend's scale, half
to even. -/
def quotient : Value → Value → Except RuntimeError Value
  | .integer left, .integer right =>
      if right = 0 then .error .divideByZero else .ok (.integer (left.tdiv right))
  | .decimal left, .decimal right =>
      if right.digits = 0 then .error .divideByZero
      else .ok (.decimal (left.divide right))
  | left, right => .error (.invalidOperation .divide left.kind right.kind)

/-- Exponents have at most 64 bits. -/
def exponentLimit : Nat := Nat.pow 2 64

/-- A number to a natural power. Anything to the power of zero is the integer
one. -/
def power (base exponent : Value) : Except RuntimeError Value := do
  let count ← exponent.asInteger
  if count < 0 then
    throw (.negativeExponent count)
  if !base.isNumber then
    throw (.invalidOperation .power base.kind exponent.kind)
  if count = 0 then
    return .integer 1
  if exponentLimit ≤ count then
    throw (.exponentTooLarge count)
  match base with
  | .integer base => return .integer (powerBySquaring (· * ·) 1 base count.toNat)
  | .decimal base => return .decimal (base.power count.toNat)
  | _ => throw (.invalidOperation .power base.kind exponent.kind)

def concatenate? (lists : Lists) (left right : Value) : Option Value := do
  return .string ((← left.display? lists) ++ (← right.display? lists))

def finished : Option α → Except Stop α
  | some result => .ok result
  | none => .error .unfinished

def comparison (operator : Operator) (expected : Ordering) (left right : Value) :
    Except RuntimeError Value := do
  return .boolean ((← order operator left right) == expected)

/-- The value of an operation. A sum with a string joins texts. -/
def operate (lists : Lists) (operator : Operator) (left right : Value) :
    Except Stop Value :=
  let checked (result : Except RuntimeError Value) := result.mapError Stop.fault
  match operator with
  | .and => checked (conjunction left right)
  | .or => checked (disjunction left right)
  | .less => checked (comparison .less .lt left right)
  | .greater => checked (comparison .greater .gt left right)
  | .equal => finished ((equal? lists left right).map fun equal => .boolean equal)
  | .notEqual => finished ((equal? lists left right).map fun equal => .boolean !equal)
  | .add =>
      if left.isString || right.isString then
        finished (concatenate? lists left right)
      else
        checked (arithmetic .add (· + ·) Decimal.add left right)
  | .subtract => checked (arithmetic .subtract (· - ·) Decimal.sub left right)
  | .multiply => checked (arithmetic .multiply (· * ·) Decimal.mul left right)
  | .divide => checked (quotient left right)
  | .power => checked (power left right)

end Plc.Value
