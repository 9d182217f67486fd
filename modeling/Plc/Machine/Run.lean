import Plc.Machine.Basic
import Plc.Value.Operation

/-! The steps a run is made of. -/

namespace Plc

/-- A part of a run: it changes the machine and gives a result, unless it
stops. What changed before a stop stays changed. -/
abbrev Run := ExceptT Stop (StateM Machine)

namespace Run

def fault (error : RuntimeError) : Run α :=
  throw (.fault error)

/-- The result of a computation that does not change the machine. -/
def check (result : Except RuntimeError α) : Run α :=
  match result with
  | .ok value => return value
  | .error error => fault error

/-- An action on what native functions can reach. -/
def onMemory (action : ExceptT Stop (StateM Memory) α) : Run α :=
  ExceptT.mk fun machine =>
    let (result, memory) := action machine.memory
    (result, { machine with memory })

/-! ## Scopes -/

/-- Runs an action in the scope at `position`. Afterwards, also after a stop,
the current scope is what it was. -/
def inScope (position : Nat) (action : Run α) : Run α :=
  ExceptT.mk fun machine =>
    let previous := machine.current
    let (result, machine) := action { machine with current := position }
    (result, { machine with current := previous })

def newScope (position : Nat) : Run Nat :=
  ExceptT.mk fun machine =>
    let (place, machine) := machine.child position
    (.ok place, machine)

def currentScope : Run Nat :=
  ExceptT.mk fun machine => (.ok machine.current, machine)

def inChild (action : Run α) : Run α := do
  let place ← newScope (← currentScope)
  inScope place action

def define (position : Nat) (name : String) (isMutable : Bool) (value : Value) :
    Run Unit :=
  ExceptT.mk fun machine =>
    let (defined, machine) := machine.defineVariable position name .any isMutable value
    (if defined then .ok () else .error (.fault (.redefinition name)), machine)

def defineAll (position : Nat) : List (String × Value) → Run Unit
  | [] => return ()
  | (name, value) :: rest => do
      define position name true value
      defineAll position rest

/-- Defines a function in the outermost scope. -/
def defineFunction (function : Machine.Function) : Run Unit :=
  ExceptT.mk fun machine =>
    let (defined, machine) := machine.defineFunction Machine.global function
    let result :=
      if defined then .ok () else .error (.fault (.redefinition function.signature.name))
    (result, machine)

def findVariable (name : String) : Run Machine.Variable :=
  ExceptT.mk fun machine =>
    match machine.scopes.lookup machine.current name with
    | some found => (.ok found, machine)
    | none => (.error (.fault (.undefinedVariable name)), machine)

def findFunction (position : Nat) (name : String) (arity : Nat) : Run Machine.Function :=
  ExceptT.mk fun machine =>
    match machine.scopes.lookupFunction position name arity with
    | some found => (.ok found, machine)
    | none => (.error (.fault (.undefinedFunction name arity)), machine)

/-! ## Cells and lists -/

def readCell (number : Nat) : Run Value :=
  ExceptT.mk fun machine => (.ok (machine.cell number), machine)

def writeCell (number : Nat) (value : Value) : Run Unit :=
  ExceptT.mk fun machine => (.ok (), machine.setCell number value)

def operate (operator : Operator) (left right : Value) : Run Value :=
  ExceptT.mk fun machine =>
    (left.operate machine.memory.lists operator right, machine)

def equal (left right : Value) : Run Bool :=
  ExceptT.mk fun machine =>
    (Value.finished (Value.equal? machine.memory.lists left right), machine)

/-- An offset as an index into a list of the given length. -/
def checkedIndex (offset : Int) (length : Nat) : Except RuntimeError Nat :=
  if 0 ≤ offset ∧ offset < length then .ok offset.toNat
  else .error (.offsetOutOfRange offset length)

/-- The list that `container` is, and the index into it that `offset` is. -/
def locate (container offset : Value) : Run (Nat × Nat) := do
  let id ← check container.asList
  let offset ← check offset.asInteger
  let machine ← get
  let index ← check (checkedIndex offset (machine.memory.lists.elements id).length)
  return (id, index)

def readElement (container offset : Value) : Run Value := do
  let (id, index) ← locate container offset
  return ((← get).memory.lists.elements id)[index]?.getD .nil

def writeElement (container offset value : Value) : Run Unit := do
  let (id, index) ← locate container offset
  modify fun machine => { machine with memory := machine.memory.setElement id index value }

end Run

end Plc
