import Mathlib.Data.List.Forall2
import Plc.Proofs.Grammar.Form

/-! Programs without the numbers and offsets of their parts. -/

namespace Plc

/-! ## Expressions -/

mutual

def Expr.bare : Expr → Expr
  | .literal _ value => .literal .none value
  | .group _ inner => .group .none inner.bare
  | .binary _ operator left right => .binary .none operator left.bare right.bare
  | .access _ name => .access .none name
  | .element _ name index => .element .none name index.bare
  | .call _ name arguments => .call .none name (Expr.bareAll arguments)
  | .list _ elements => .list .none (Expr.bareAll elements)

def Expr.bareAll : List Expr → List Expr
  | [] => []
  | head :: tail => head.bare :: Expr.bareAll tail

end

/-! ## Statements -/

mutual

def Stmt.bare : Stmt → Stmt
  | .expression value => .expression value.bare
  | .declaration _ name typeName value => .declaration 0 name typeName (value.map Expr.bare)
  | .assignment receiver value => .assignment receiver.bare value.bare
  | .conditional condition whenTrue whenFalse =>
      .conditional condition.bare (Stmt.bareAll whenTrue) (Stmt.bareAll whenFalse)
  | .switch condition cases => .switch condition.bare (Case.bareAll cases)
  | .loop condition body => .loop condition.bare (Stmt.bareAll body)
  | .returns value => .returns value.bare

def Stmt.bareAll : List Stmt → List Stmt
  | [] => []
  | head :: tail => head.bare :: Stmt.bareAll tail

def Case.bare : Case → Case
  | .mk value body => .mk (value.map Expr.bare) (Stmt.bareAll body)

def Case.bareAll : List Case → List Case
  | [] => []
  | head :: tail => head.bare :: Case.bareAll tail

end

/-! ## Programs -/

def Global.bare (declaration : Global) : Global :=
  { declaration with id := 0, value := declaration.value.map Expr.bare }

def Procedure.bare (procedure : Procedure) : Procedure :=
  { procedure with id := 0, body := Stmt.bareAll procedure.body }

def Program.bare (program : Program) : Program :=
  ⟨program.globals.map Global.bare, program.procedures.map Procedure.bare⟩

/-! ## Agreement

A part of a program agrees with what it is when bare. -/

abbrev Expr.Agrees (expression tree : Expr) : Prop :=
  expression.bare = tree

abbrev Stmt.Agrees (statement tree : Stmt) : Prop :=
  statement.bare = tree

abbrev Case.Agrees (case tree : Case) : Prop :=
  case.bare = tree

abbrev Global.Agrees (declaration tree : Global) : Prop :=
  declaration.bare = tree

abbrev Procedure.Agrees (procedure tree : Procedure) : Prop :=
  procedure.bare = tree

theorem Expr.bareAll_eq_map (expressions : List Expr) :
    Expr.bareAll expressions = expressions.map Expr.bare := by
  induction expressions with
  | nil => rfl
  | cons head tail induction => rw [Expr.bareAll, induction, List.map_cons]

theorem Stmt.bareAll_eq_map (statements : List Stmt) :
    Stmt.bareAll statements = statements.map Stmt.bare := by
  induction statements with
  | nil => rfl
  | cons head tail induction => rw [Stmt.bareAll, induction, List.map_cons]

theorem Case.bareAll_eq_map (cases : List Case) :
    Case.bareAll cases = cases.map Case.bare := by
  induction cases with
  | nil => rfl
  | cons head tail induction => rw [Case.bareAll, induction, List.map_cons]

theorem map_eq_of_forall₂ {bare : α → β} {items : List α} {trees : List β}
    (agree : List.Forall₂ (fun item tree => bare item = tree) items trees) :
    items.map bare = trees := by
  induction agree with
  | nil => rfl
  | cons same _ induction => rw [List.map_cons, same, induction]

theorem eq_of_rel {item tree : Option α} (agree : Option.Rel Eq item tree) : item = tree := by
  cases agree with
  | none => rfl
  | some same => rw [same]

theorem map_eq_of_rel {bare : α → β} {item : Option α} {tree : Option β}
    (agree : Option.Rel (fun item tree => bare item = tree) item tree) :
    item.map bare = tree := by
  cases agree with
  | none => rfl
  | some same => rw [Option.map_some, same]

end Plc
