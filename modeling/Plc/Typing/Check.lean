import Plc.Program.Basic
import Plc.Typing.Annotations
import Plc.Typing.Rules

/-! Checking a program, from its first global to its last function. A name
stands for what was declared before it in its block or a block around it. -/

namespace Plc

open Typing

/-! ## Expressions -/

namespace Typing

def findVariable (context : Context) (name : String) : Check Variable :=
  match context.lookup name with
  | some found => return found
  | none => throw (.undefinedVariable name)

def findFunction (context : Context) (name : String) (arity : Nat) : Check Signature :=
  match context.lookupFunction name arity with
  | some found => return found
  | none => throw (.undefinedFunction name arity)

/-- Notes what an accessed name stands for, and gives its type. -/
def accessType (context : Context) (node : Node) (name : String) : Check Ty := do
  let found ← findVariable context name
  Check.recordVariable node.id found
  Check.recordType node.id found.type

def requireAll : List Ty → List Ty → Except TypingError Unit
  | target :: targets, actual :: actuals => do
      target.require actual
      requireAll targets actuals
  | _, _ => return ()

end Typing

mutual

def Expr.check (context : Context) : Expr → Check Ty
  | .literal node value => do
      Check.recordType node.id (← value.type)
  | .group node inner => do
      if !inner.isBinary then
        throw .groupNotBinary
      Check.recordType node.id (← inner.check context)
  | .binary node operator left right => do
      let leftType ← left.check context
      let rightType ← right.check context
      Check.recordType node.id (← operator.type leftType rightType)
  | .access node name => accessType context node name
  | .element node name index => do
      Ty.integer.require (← index.check context)
      accessType context node name
  | .call node name arguments => do
      let types ← Expr.checkAll context arguments
      let found ← findFunction context name arguments.length
      requireAll found.parameters types
      Check.recordFunction node.id found
      Check.recordType node.id found.result
  | .list _ _ => throw .unexpectedList

def Expr.checkAll (context : Context) : List Expr → Check (List Ty)
  | [] => return []
  | head :: tail => do
      let type ← head.check context
      return type :: (← Expr.checkAll context tail)

end

/-! ## Declarations -/

namespace Typing

/-- Adds a declared variable to its block, and notes it. -/
def declare (context : Context) (id : Nat) (declared : Variable) : Check Context :=
  match context.declare? declared with
  | none => throw (.redefinition declared.name)
  | some extended => do
      Check.recordVariable id declared
      return extended

/-- The type of a declaration: the stated one, which the value has to fit, or
else the value's. -/
def initializerType (context : Context) (name : String) (stated : Option Ty) :
    Option Expr → Check Ty
  | some value => do
      let actual ← value.check context
      match stated with
      | some stated =>
          stated.require actual
          return stated
      | none => return actual
  | none =>
      match stated with
      | some stated => return stated
      | none => throw (.missingDeclarationType name)

/-- The type of the elements of a list: the stated one, else the first
element's, else any. The other elements have to fit it. -/
def elementType (context : Context) : Option Ty → List Expr → Check Ty
  | stated, [] => return stated.getD .any
  | stated, head :: tail => do
      let actual ← head.check context
      match stated with
      | some stated =>
          stated.require actual
          elementType context (some stated) tail
      | none => elementType context (some actual) tail

end Typing

/-! ## Statements -/

mutual

/-- Gives the context for the statements that follow. -/
def Stmt.check (context : Context) : Stmt → Check Context
  | .expression value => do
      if !value.isCall then
        throw .statementNotCall
      let _ ← value.check context
      return context
  | .declaration id name typeName value => do
      let stated ← Ty.ofOptionalName typeName
      let type ← initializerType context name stated value
      declare context id ⟨name, type, true⟩
  | .assignment receiver value => do
      if !receiver.isReceiver then
        throw .invalidReceiver
      let target ← receiver.check context
      target.require (← value.check context)
      return context
  | .conditional condition whenTrue whenFalse => do
      Ty.boolean.require (← condition.check context)
      if whenTrue.isEmpty then
        throw .emptyBranch
      Stmt.checkAll context.nest whenTrue
      Stmt.checkAll context.nest whenFalse
      return context
  | .switch condition cases => do
      let type ← condition.check context
      Case.checkAll context type cases
      return context
  | .loop condition body => do
      Ty.boolean.require (← condition.check context)
      Stmt.checkAll context.nest body
      return context
  | .returns value => do
      let expected ← findVariable context "RETURN"
      expected.type.require (← value.check context)
      return context

def Stmt.checkAll (context : Context) : List Stmt → Check Unit
  | [] => return ()
  | head :: tail => do
      Stmt.checkAll (← head.check context) tail

/-- Only the last case may be, and has to be, the default. -/
def Case.check (context : Context) (type : Ty) (isLast : Bool) : Case → Check Unit
  | .mk (some value) body => do
      if isLast then
        throw .misplacedDefault
      type.require (← value.check context)
      Stmt.checkAll context.nest body
  | .mk none body => do
      if !isLast then
        throw .misplacedDefault
      Stmt.checkAll context.nest body

def Case.checkAll (context : Context) (type : Ty) : List Case → Check Unit
  | [] => return ()
  | head :: tail => do
      head.check context type tail.isEmpty
      Case.checkAll context type tail

end

/-! ## Programs -/

def Global.check (context : Context) (declaration : Global) : Check Context := do
  let stated ← Ty.ofOptionalName declaration.typeName
  let type ←
    match declaration.value with
    | some (.list node elements) => do
        Check.recordType node.id (← elementType context stated elements)
    | value => initializerType context declaration.name stated value
  declare context declaration.id ⟨declaration.name, type, declaration.isMutable⟩

/-- A parameter without a type takes any value; a function without one gives
none. -/
def Procedure.signature (procedure : Procedure) : Except TypingError Signature := do
  let parameters ← procedure.parameters.mapM fun parameter => do
    return (← Ty.ofOptionalName parameter.typeName).getD .any
  let result := (← Ty.ofOptionalName procedure.resultTypeName).getD .nil
  return ⟨procedure.name, procedure.name, parameters, result⟩

namespace Typing

def declareParameters (context : Context) :
    List (String × Ty) → Except TypingError Context
  | [] => return context
  | (name, type) :: tail =>
      match context.declare? ⟨name, type, true⟩ with
      | some extended => declareParameters extended tail
      | none => throw (.redefinition name)

/-- The context of a function's body. The result it has to give is known as
an immutable variable `RETURN`. -/
def bodyContext (context : Context) (names : List String) (signature : Signature) :
    Except TypingError Context :=
  let returning : Scope Variable Signature :=
    ⟨[("RETURN", ⟨"RETURN", signature.result, false⟩)], []⟩
  declareParameters { context.nest with inner := returning }
    (names.zip signature.parameters)

end Typing

/-- Gives the context for what follows the function, which is also the one
that its body is nested in: a function may call itself. -/
def Procedure.check (context : Context) (procedure : Procedure) : Check Context := do
  let signature ← procedure.signature
  match context.declareFunction? signature with
  | none => throw (.redefinition procedure.name)
  | some extended =>
      Check.recordFunction procedure.id signature
      let body ← bodyContext extended (procedure.parameters.map (·.name)) signature
      Stmt.checkAll body procedure.body
      return extended

/-- A program starts with a function that takes nothing and gives an integer. -/
def Typing.requireMain (context : Context) : Except TypingError Unit :=
  match context.lookupFunction "main" 0 with
  | none => .error .missingMain
  | some found =>
      if found.result = .integer then .ok () else .error (.mainResultType found.result)

def Program.check (context : Context) (program : Program) :
    Except TypingError Annotations := do
  let checking : Check Unit := do
    let context ← program.globals.foldlM Global.check context
    let context ← program.procedures.foldlM Procedure.check context
    requireMain context
  let (_, annotations) ← checking.run .empty
  return annotations

end Plc
