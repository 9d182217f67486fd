import Plc.Literal
import Plc.Typing.Error

/-! The types of literals and operators. -/

namespace Plc

/-- Fails unless a value of type `actual` may be stored where `target` is
expected. -/
def Ty.require (target actual : Ty) : Except TypingError Unit :=
  if target.accepts actual then .ok () else .error (.notAssignable target actual)

/-- The type with the given name, if a name is given. -/
def Ty.ofOptionalName : Option String → Except TypingError (Option Ty)
  | none => .ok none
  | some name =>
      match Ty.ofName? name with
      | some type => .ok (some type)
      | none => .error (.unknownType name)

/-- Integers have to fit 32 bits and decimals binary64. -/
def Literal.type : Literal → Except TypingError Ty
  | .nil => .ok .nil
  | .boolean _ => .ok .boolean
  | .integer value =>
      if -2147483648 ≤ value ∧ value ≤ 2147483647 then .ok .integer
      else .error (.integerOutOfRange (toString value))
  | .decimal value =>
      if value.fitsBinary64 then .ok .decimal
      else .error (.decimalOutOfRange value.display)
  | .character _ => .ok .character
  | .string _ => .ok .string

namespace Operator

def type (operator : Operator) (left right : Ty) : Except TypingError Ty := do
  match operator with
  | .and | .or =>
      Ty.boolean.require left
      Ty.boolean.require right
      return .boolean
  | .less | .greater | .equal | .notEqual =>
      Ty.comparable.require left
      Ty.comparable.require right
      if left ≠ right then
        throw (.operandMismatch operator left right)
      return .boolean
  | .add =>
      if left = .string ∨ right = .string then return .string
      arithmetic
  | .subtract | .multiply | .divide => arithmetic
  | .power =>
      match left, right with
      | .integer, .integer => return .integer
      | .decimal, .integer => return .decimal
      | _, _ => throw (.invalidOperands operator left right)
where
  arithmetic : Except TypingError Ty :=
    match left, right with
    | .integer, .integer => .ok .integer
    | .decimal, .decimal => .ok .decimal
    | _, _ => .error (.invalidOperands operator left right)

end Operator

end Plc
