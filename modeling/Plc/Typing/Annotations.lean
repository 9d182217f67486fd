import Plc.Typing.Context
import Plc.Typing.Error
import Std.Data.TreeMap

/-! What checking learns about a program, by the numbers of its parts. -/

namespace Plc.Typing

structure Annotations where
  /-- The type of every expression. -/
  typeTable : Std.TreeMap Nat Ty
  /-- What every accessed variable and every declaration stands for. -/
  variableTable : Std.TreeMap Nat Variable
  /-- What every called function and every function declaration stands for. -/
  functionTable : Std.TreeMap Nat Signature

def Annotations.empty : Annotations := ⟨∅, ∅, ∅⟩

/-- Checking collects annotations until the first error. -/
abbrev Check := StateT Annotations (Except TypingError)

namespace Check

/-- Notes the type of an expression, which must not have one yet. -/
def recordType (id : Nat) (type : Ty) : Check Ty := fun annotations =>
  if annotations.typeTable.contains id then
    .error (.duplicateType id)
  else
    .ok (type, { annotations with typeTable := annotations.typeTable.insert id type })

def recordVariable (id : Nat) (binding : Variable) : Check Unit := fun annotations =>
  .ok ((), { annotations with variableTable := annotations.variableTable.insert id binding })

def recordFunction (id : Nat) (binding : Signature) : Check Unit := fun annotations =>
  .ok ((), { annotations with functionTable := annotations.functionTable.insert id binding })

end Check

end Plc.Typing
