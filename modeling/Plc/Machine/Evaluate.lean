import Plc.Machine.Run

/-! Running programs. Expressions and statements are evaluated by recursion on
their form; what is not bounded by the form of the program, the nesting of
calls and the rounds of a loop, is bounded by a number given to the run. -/

namespace Plc

abbrev Invoke := Machine.Function → List Value → Run Value

/-! ## Expressions -/

mutual

/-- Both operands of an operator are always evaluated. -/
def Expr.evaluate (invoke : Invoke) : Expr → Run Value
  | .literal _ value => return Value.ofLiteral value
  | .group _ inner => inner.evaluate invoke
  | .binary _ operator left right => do
      let leftValue ← left.evaluate invoke
      let rightValue ← right.evaluate invoke
      Run.operate operator leftValue rightValue
  | .access _ name => do
      Run.readCell (← Run.findVariable name).cell
  | .element _ name index => do
      let offset ← index.evaluate invoke
      let container ← Run.readCell (← Run.findVariable name).cell
      Run.readElement container offset
  | .call _ name arguments => do
      let values ← Expr.evaluateAll invoke arguments
      let function ← Run.findFunction (← Run.currentScope) name values.length
      invoke function values
  | .list _ elements => do
      let values ← Expr.evaluateAll invoke elements
      Run.onMemory (Native.newList values)

def Expr.evaluateAll (invoke : Invoke) : List Expr → Run (List Value)
  | [] => return []
  | head :: tail => do
      let value ← head.evaluate invoke
      return value :: (← Expr.evaluateAll invoke tail)

end

def Expr.evaluateInitial (invoke : Invoke) : Option Expr → Run Value
  | some value => value.evaluate invoke
  | none => return .nil

/-- Stores a value. Whether the variable may change is settled before anything
is evaluated. -/
def Expr.assign (invoke : Invoke) (receiver value : Expr) : Run Unit :=
  match receiver with
  | .access _ name => do
      let target ← mutableVariable name
      Run.writeCell target.cell (← value.evaluate invoke)
  | .element _ name index => do
      let target ← mutableVariable name
      let offset ← index.evaluate invoke
      let newValue ← value.evaluate invoke
      Run.writeElement (← Run.readCell target.cell) offset newValue
  | _ => Run.fault .invalidReceiver
where
  mutableVariable (name : String) : Run Machine.Variable := do
    let target ← Run.findVariable name
    if target.isMutable then
      return target
    else
      Run.fault (.immutableAssignment name)

/-! ## Statements -/

inductive Flow where
  | normal
  /-- The function that is running ends with this value. -/
  | returned (value : Value)
  deriving DecidableEq, Repr

/-- Repeats `body` while `test` holds, for fewer than the given number of
rounds. -/
def Run.repeatWhile (test : Run Bool) (body : Run Flow) : Nat → Run Flow
  | 0 => throw .unfinished
  | rounds + 1 => do
      if ← test then
        match ← body with
        | .normal => Run.repeatWhile test body rounds
        | .returned value => return .returned value
      else
        return .normal

mutual

/-- Executes a statement whose loops take fewer than `rounds` rounds. -/
def Stmt.execute (invoke : Invoke) (rounds : Nat) : Stmt → Run Flow
  | .expression value => do
      let _ ← value.evaluate invoke
      return .normal
  | .declaration _ name _ value => do
      let initial ← Expr.evaluateInitial invoke value
      Run.define (← Run.currentScope) name true initial
      return .normal
  | .assignment receiver value => do
      receiver.assign invoke value
      return .normal
  | .conditional condition whenTrue whenFalse => do
      if ← Run.check (← condition.evaluate invoke).asBoolean then
        Run.inChild (Stmt.executeAll invoke rounds whenTrue)
      else
        Run.inChild (Stmt.executeAll invoke rounds whenFalse)
  | .switch condition cases => do
      let value ← condition.evaluate invoke
      Case.executeAll invoke rounds value cases
  | .loop condition body =>
      Run.repeatWhile (do Run.check (← condition.evaluate invoke).asBoolean)
        (Run.inChild (Stmt.executeAll invoke rounds body)) rounds
  | .returns value => do
      return .returned (← value.evaluate invoke)

/-- Executes statements in turn, up to the first that ends the function. -/
def Stmt.executeAll (invoke : Invoke) (rounds : Nat) : List Stmt → Run Flow
  | [] => return .normal
  | head :: tail => do
      match ← head.execute invoke rounds with
      | .normal => Stmt.executeAll invoke rounds tail
      | .returned value => return .returned value

/-- Executes the first case that equals `value` or has no value of its own. -/
def Case.executeAll (invoke : Invoke) (rounds : Nat) (value : Value) :
    List Case → Run Flow
  | [] => return .normal
  | .mk none body :: _ => Run.inChild (Stmt.executeAll invoke rounds body)
  | .mk (some test) body :: tail => do
      if ← Run.equal (← test.evaluate invoke) value then
        Run.inChild (Stmt.executeAll invoke rounds body)
      else
        Case.executeAll invoke rounds value tail

end

/-! ## Functions -/

/-- Calls a function. With a bound of zero nothing is called; otherwise calls
are nested less deep, and loops take fewer rounds, than `bound` says. -/
def Machine.invoke : Nat → Invoke
  | 0, _, _ => throw .unfinished
  | bound + 1, function, arguments =>
      match function.callable with
      | .native behaviour => Run.onMemory (behaviour arguments)
      | .signature => Run.fault (.notInvocable function.signature.name)
      | .declared parameters body closure => do
          if (← get).scopes.places.size ≤ closure then
            Run.fault (.detachedClosure function.signature.name)
          let scope ← Run.newScope closure
          Run.defineAll scope (parameters.zip arguments)
          match ← Run.inScope scope (Stmt.executeAll (invoke bound) bound body) with
          | .normal => return .nil
          | .returned value => return value

def Machine.call (bound : Nat) (name : String) (arguments : List Value) : Run Value := do
  let function ← Run.findFunction Machine.global name arguments.length
  Machine.invoke bound function arguments

/-! ## Programs -/

def Global.define (bound : Nat) (declaration : Global) : Run Unit := do
  let value ← Expr.evaluateInitial (Machine.invoke bound) declaration.value
  Run.define Machine.global declaration.name declaration.isMutable value

def Procedure.define (procedure : Procedure) : Run Unit :=
  Run.defineFunction
    ⟨Machine.untyped procedure.name procedure.parameters.length,
      .declared (procedure.parameters.map (·.name)) procedure.body Machine.global⟩

/-- Defines the globals and then the functions, one by one, and calls `main`. -/
def Program.run (bound : Nat) (program : Program) : Run Value := do
  program.globals.forM (Global.define bound)
  program.procedures.forM Procedure.define
  Machine.call bound "main" []

end Plc
