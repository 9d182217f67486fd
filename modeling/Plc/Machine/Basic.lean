import Plc.Machine.Memory
import Plc.Program.Basic
import Plc.Scope.Tree
import Plc.Typing.Context

/-! The state of a run. A scope binds a name to a variable, which says where
its value is stored. -/

namespace Plc

/-- A variable at run time. Its value is in the cell with the number `cell`,
whatever scope it is reached from. -/
structure Machine.Variable where
  name : String
  type : Ty
  isMutable : Bool
  cell : Nat
  deriving DecidableEq, Repr

inductive Machine.Callable where
  /-- Only the types are known. -/
  | signature
  | native (behaviour : Native)
  /-- A body that runs in a scope inside the one at `closure`. -/
  | declared (parameters : List String) (body : List Stmt) (closure : Nat)

structure Machine.Function where
  signature : Signature
  callable : Machine.Callable

structure Machine where
  scopes : Scope.Tree Machine.Variable Machine.Function
  /-- The scope of what is being executed. -/
  current : Nat
  cells : Array Value
  memory : Memory

namespace Machine

def Callable.display : Callable → String
  | .signature => "Signature"
  | .native _ => "Native(\"Function Pointer\")"
  | .declared parameters body _ =>
      let quoted := parameters.map fun name => "\"" ++ name ++ "\""
      "Declared \x7b parameters: [" ++ ", ".intercalate quoted ++
        "], statements: " ++ toString body.length ++ " \x7d"

/-- The scope that everything else is inside of. -/
def global : Nat := 0

def empty (output : Output) : Machine :=
  ⟨Scope.Tree.root, global, #[], ⟨#[], output⟩⟩

def cell (machine : Machine) (number : Nat) : Value :=
  match machine.cells[number]? with
  | some value => value
  | none => .nil

def setCell (machine : Machine) (number : Nat) (value : Value) : Machine :=
  { machine with cells := machine.cells.setIfInBounds number value }

/-- Defines a variable in the scope at `position`, with a new cell. Says
whether the name was free there; if it was not, nothing changes. -/
def defineVariable (machine : Machine) (position : Nat) (name : String) (type : Ty)
    (isMutable : Bool) (value : Value) : Bool × Machine :=
  let binding : Variable := ⟨name, type, isMutable, machine.cells.size⟩
  let (defined, scopes) := machine.scopes.defineVariable position name binding
  let cells := if defined then machine.cells.push value else machine.cells
  (defined, { machine with scopes, cells })

def defineFunction (machine : Machine) (position : Nat) (function : Function) :
    Bool × Machine :=
  let (defined, scopes) :=
    machine.scopes.defineFunction position function.signature.name
      function.signature.arity function
  (defined, { machine with scopes })

def child (machine : Machine) (position : Nat) : Nat × Machine :=
  let (place, scopes) := machine.scopes.child position
  (place, { machine with scopes })

/-- A signature without types, as every function has it at run time. -/
def untyped (name : String) (arity : Nat) : Signature :=
  ⟨name, name, List.replicate arity .any, .any⟩

/-- Makes a function of the host known everywhere. The first of a name and
arity stays. -/
def defineNative (machine : Machine) (name : String) (arity : Nat) (behaviour : Native) :
    Machine :=
  (machine.defineFunction global ⟨untyped name arity, .native behaviour⟩).2

def standard (output : Output) : Machine :=
  (empty output).defineNative "print" 1 Native.print

end Machine

end Plc
