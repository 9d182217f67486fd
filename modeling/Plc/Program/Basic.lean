import Plc.Expr

/-! Statements, declarations and whole programs. -/

namespace Plc

mutual

inductive Stmt where
  | expression (value : Expr)
  | declaration (id : Nat) (name : String) (typeName : Option String)
      (value : Option Expr)
  | assignment (receiver value : Expr)
  | conditional (condition : Expr) (whenTrue whenFalse : List Stmt)
  | switch (condition : Expr) (cases : List Case)
  | loop (condition : Expr) (body : List Stmt)
  | returns (value : Expr)
  deriving Repr

/-- A branch of a switch. The one without a value is taken by default. -/
inductive Case where
  | mk (value : Option Expr) (body : List Stmt)
  deriving Repr

end

namespace Case

def value : Case → Option Expr
  | .mk value _ => value

def body : Case → List Stmt
  | .mk _ body => body

end Case

/-- A variable of the whole program. For a list, `typeName` names the type of
its elements. -/
structure Global where
  id : Nat
  name : String
  typeName : Option String
  isMutable : Bool
  value : Option Expr
  deriving Repr

structure Parameter where
  name : String
  typeName : Option String
  deriving Repr, DecidableEq

/-- A function declaration. The names of the parameters and of their types are
read in pairs, and are kept in pairs. Two lists of different lengths would tell
the checker no more: a type without a name is that of a parameter which nothing
uses, and a name without a type declares nothing. -/
structure Procedure where
  id : Nat
  name : String
  parameters : List Parameter
  resultTypeName : Option String
  body : List Stmt
  deriving Repr

structure Program where
  globals : List Global
  procedures : List Procedure
  deriving Repr

/-! ## The expressions of a program

In the order of the source; each is listed before its parts. -/

mutual

def Stmt.subterms : Stmt → List Expr
  | .expression value => value.subterms
  | .declaration _ _ _ value => (value.map Expr.subterms).getD []
  | .assignment receiver value => receiver.subterms ++ value.subterms
  | .conditional condition whenTrue whenFalse =>
      condition.subterms ++ Stmt.subtermsOfAll whenTrue ++ Stmt.subtermsOfAll whenFalse
  | .switch condition cases => condition.subterms ++ Case.subtermsOfAll cases
  | .loop condition body => condition.subterms ++ Stmt.subtermsOfAll body
  | .returns value => value.subterms

def Stmt.subtermsOfAll : List Stmt → List Expr
  | [] => []
  | head :: tail => head.subterms ++ Stmt.subtermsOfAll tail

def Case.subterms : Case → List Expr
  | .mk value body => (value.map Expr.subterms).getD [] ++ Stmt.subtermsOfAll body

def Case.subtermsOfAll : List Case → List Expr
  | [] => []
  | head :: tail => head.subterms ++ Case.subtermsOfAll tail

end

def Global.subterms (declaration : Global) : List Expr :=
  (declaration.value.map Expr.subterms).getD []

def Procedure.subterms (procedure : Procedure) : List Expr :=
  Stmt.subtermsOfAll procedure.body

def Program.subterms (program : Program) : List Expr :=
  program.globals.flatMap Global.subterms ++
    program.procedures.flatMap Procedure.subterms

end Plc
