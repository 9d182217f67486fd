import Plc.Operator
import Plc.Value.Basic

/-! What can go wrong while a program runs. -/

namespace Plc

inductive RuntimeError where
  | typeMismatch (expected found : Value.Kind)
  | invalidOperation (operator : Operator) (left right : Value.Kind)
  | divideByZero
  | offsetOutOfRange (offset : Int) (length : Nat)
  | immutableAssignment (name : String)
  | undefinedVariable (name : String)
  | undefinedFunction (name : String) (arity : Nat)
  | redefinition (name : String)
  | negativeExponent (exponent : Int)
  | exponentTooLarge (exponent : Int)
  | scaleOutOfRange (scale : Int)
  | invalidReceiver
  /-- The scope a function was declared in is gone. -/
  | detachedClosure (name : String)
  /-- Only the signature of a function is known. -/
  | notInvocable (name : String)
  | output (reason : String)
  deriving DecidableEq, Repr

def RuntimeError.message : RuntimeError → String
  | .typeMismatch expected found =>
      "Expected " ++ expected.name ++ ", received " ++ found.name
  | .invalidOperation operator left right =>
      "Invalid binary operation: " ++ left.name ++ " " ++ operator.symbol ++ " " ++ right.name
  | .divideByZero => "Divide by Zero"
  | .offsetOutOfRange offset length =>
      s!"Offset out of range: {offset} for a list of length {length}"
  | .immutableAssignment name => s!"Cannot assign to immutable '{name}'"
  | .undefinedVariable name => s!"Undefined variable '{name}'"
  | .undefinedFunction name arity => s!"Undefined function '{name}' taking {arity} argument(s)"
  | .redefinition name => s!"'{name}' is already defined in this scope"
  | .negativeExponent exponent => s!"Negative exponent {exponent} is not supported"
  | .exponentTooLarge exponent => s!"Exponent {exponent} is too large"
  | .scaleOutOfRange scale => s!"Decimal scale {scale} is out of range"
  | .invalidReceiver => "Invalid assignment receiver"
  | .detachedClosure name => s!"Function '{name}' outlived its defining scope"
  | .notInvocable name => s!"Function '{name}' has no implementation"
  | .output reason => s!"Failed writing output: {reason}"

/-- Why an evaluation gives no value: an error of the program, or it was not
finished within the bounds set for it. -/
inductive Stop where
  | fault (error : RuntimeError)
  | unfinished
  deriving DecidableEq, Repr

namespace Value

/-! ## Values of a required kind -/

def asBoolean : Value → Except RuntimeError Bool
  | .boolean value => .ok value
  | other => .error (.typeMismatch .boolean other.kind)

def asInteger : Value → Except RuntimeError Int
  | .integer value => .ok value
  | other => .error (.typeMismatch .integer other.kind)

def asList : Value → Except RuntimeError Nat
  | .list id => .ok id
  | other => .error (.typeMismatch .list other.kind)

end Value

end Plc
