import Plc.Operator
import Plc.Ty

/-! Why a program is not well typed. -/

namespace Plc

inductive TypingError where
  | unknownType (name : String)
  | undefinedVariable (name : String)
  | undefinedFunction (name : String) (arity : Nat)
  | redefinition (name : String)
  | notAssignable (target actual : Ty)
  | operandMismatch (operator : Operator) (left right : Ty)
  | invalidOperands (operator : Operator) (left right : Ty)
  | missingMain
  | mainResultType (found : Ty)
  | integerOutOfRange (text : String)
  | decimalOutOfRange (text : String)
  | groupNotBinary
  | statementNotCall
  | invalidReceiver
  | emptyBranch
  | misplacedDefault
  | missingDeclarationType (name : String)
  | unexpectedList
  /-- Two expressions have the same number. -/
  | duplicateType (id : Nat)
  deriving DecidableEq, Repr

def TypingError.message : TypingError → String
  | .unknownType name => s!"Unknown type '{name}'"
  | .undefinedVariable name => s!"Undefined variable '{name}'"
  | .undefinedFunction name arity => s!"Undefined function '{name}' taking {arity} argument(s)"
  | .redefinition name => s!"'{name}' is already defined in this scope"
  | .notAssignable target actual =>
      "Type " ++ actual.name ++ " is not assignable to " ++ target.name
  | .operandMismatch operator left right =>
      "Operands of '" ++ operator.symbol ++ "' must have the same type, found " ++
        left.name ++ " and " ++ right.name
  | .invalidOperands operator left right =>
      "Invalid operand types for '" ++ operator.symbol ++ "': " ++
        left.name ++ " and " ++ right.name
  | .missingMain => "Missing a zero-argument 'main' function"
  | .mainResultType found => "'main' must return Integer, found " ++ found.name
  | .integerOutOfRange text => s!"Integer out of Range: {text}"
  | .decimalOutOfRange text => s!"Decimal out of Range: {text}"
  | .groupNotBinary => "Only binary expressions may be grouped"
  | .statementNotCall => "Only function calls may be used as statements"
  | .invalidReceiver => "Only variables and list elements may be assigned to"
  | .emptyBranch => "An IF statement needs at least one statement in its DO block"
  | .misplacedDefault => "Only the last case of a SWITCH may be the DEFAULT"
  | .missingDeclarationType name => s!"'{name}' needs either a type or an initial value"
  | .unexpectedList => "List literals are only allowed in LIST declarations"
  | .duplicateType id => s!"Node NodeId({id}) was typed twice"

end Plc
