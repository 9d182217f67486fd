import Plc.Proofs.Soundness.Fragment

/-! The numbers of the parts of a program. Expressions, globals, functions and the
declarations in blocks are numbered; the lists here have one entry for each of them. -/

namespace Plc

/-! ## Expressions -/

def Expr.numbers (expression : Expr) : List Nat :=
  expression.subterms.map (·.node.id)

def Expr.numbersOfAll (expressions : List Expr) : List Nat :=
  (Expr.subtermsOfAll expressions).map (·.node.id)

def Expr.numbersOf? (value : Option Expr) : List Nat :=
  ((value.map Expr.subterms).getD []).map (·.node.id)

theorem Expr.numbersOfAll_eq_flatMap (expressions : List Expr) :
    Expr.numbersOfAll expressions = expressions.flatMap Expr.numbers := by
  induction expressions with
  | nil => rfl
  | cons head tail induction =>
      have opened : Expr.numbersOfAll (head :: tail) =
          head.numbers ++ Expr.numbersOfAll tail := List.map_append
      rw [opened, induction, List.flatMap_cons]

/-! ## Statements -/

def Stmt.declaredNumber? : Stmt → Option Nat
  | .declaration id _ _ _ => some id
  | _ => none

def Stmt.numbers (statement : Stmt) : List Nat :=
  statement.subterms.map (·.node.id) ++ statement.nested.filterMap Stmt.declaredNumber?

def Stmt.numbersOfAll (statements : List Stmt) : List Nat :=
  (Stmt.subtermsOfAll statements).map (·.node.id) ++
    (Stmt.nestedInAll statements).filterMap Stmt.declaredNumber?

def Case.numbers (branch : Case) : List Nat :=
  Expr.numbersOf? branch.value ++ Stmt.numbersOfAll branch.body

def Case.numbersOfAll (cases : List Case) : List Nat :=
  (Case.subtermsOfAll cases).map (·.node.id) ++
    (Case.nestedInAll cases).filterMap Stmt.declaredNumber?

theorem Stmt.numbers_expression (value : Expr) :
    (Stmt.expression value).numbers = value.numbers :=
  List.append_nil _

theorem Stmt.numbers_assignment (receiver value : Expr) :
    (Stmt.assignment receiver value).numbers = receiver.numbers ++ value.numbers :=
  (List.append_nil _).trans List.map_append

theorem Stmt.numbers_conditional (condition : Expr) (whenTrue whenFalse : List Stmt) :
    (Stmt.conditional condition whenTrue whenFalse).numbers.Perm
      (condition.numbers ++ Stmt.numbersOfAll whenTrue ++ Stmt.numbersOfAll whenFalse) := by
  rw [List.perm_iff_count]
  intro number
  simp only [Stmt.numbers, Stmt.numbersOfAll, Stmt.subterms, Stmt.nested, Stmt.declaredNumber?,
    Expr.numbers, List.map_append, List.filterMap_append, List.filterMap_cons,
    List.count_append]
  omega

theorem Stmt.numbers_switch (condition : Expr) (cases : List Case) :
    (Stmt.switch condition cases).numbers = condition.numbers ++ Case.numbersOfAll cases := by
  rw [Stmt.numbers, Stmt.subterms, List.map_append, List.append_assoc]
  rfl

theorem Stmt.numbers_loop (condition : Expr) (body : List Stmt) :
    (Stmt.loop condition body).numbers = condition.numbers ++ Stmt.numbersOfAll body := by
  rw [Stmt.numbers, Stmt.subterms, List.map_append, List.append_assoc]
  rfl

theorem Stmt.numbers_returns (value : Expr) : (Stmt.returns value).numbers = value.numbers :=
  List.append_nil _

theorem Stmt.numbersOfAll_perm (statements : List Stmt) :
    (Stmt.numbersOfAll statements).Perm (statements.flatMap Stmt.numbers) := by
  induction statements with
  | nil => exact .refl _
  | cons head tail induction =>
      rw [List.perm_iff_count] at induction ⊢
      intro number
      have rest := induction number
      simp only [Stmt.numbersOfAll, Stmt.numbers, Stmt.subtermsOfAll, Stmt.nestedInAll,
        List.map_append, List.filterMap_append, List.flatMap_cons, List.count_append] at rest ⊢
      omega

theorem Case.numbersOfAll_perm (cases : List Case) :
    (Case.numbersOfAll cases).Perm (cases.flatMap Case.numbers) := by
  induction cases with
  | nil => exact .refl _
  | cons head tail induction =>
      rcases head with ⟨value, body⟩
      rw [List.perm_iff_count] at induction ⊢
      intro number
      have rest := induction number
      simp only [Case.numbersOfAll, Case.numbers, Case.value, Case.body, Expr.numbersOf?,
        Stmt.numbersOfAll, Case.subtermsOfAll, Case.subterms, Case.nestedInAll,
        List.map_append, List.filterMap_append, List.flatMap_cons, List.count_append] at rest ⊢
      omega

/-! ## Programs -/

def Global.numbers (declaration : Global) : List Nat :=
  declaration.id :: Expr.numbersOf? declaration.value

def Procedure.numbers (procedure : Procedure) : List Nat :=
  procedure.id :: Stmt.numbersOfAll procedure.body

def Program.numbers (program : Program) : List Nat :=
  program.globals.flatMap Global.numbers ++ program.procedures.flatMap Procedure.numbers

def Program.expressionNumbers (program : Program) : List Nat :=
  program.subterms.map (·.node.id)

def Program.declaredNumbers (program : Program) : List Nat :=
  program.procedures.flatMap fun procedure =>
    (Stmt.nestedInAll procedure.body).filterMap Stmt.declaredNumber?

/-- The numbers of what stands for a variable: accesses to it, globals and declarations
in blocks. -/
def Program.variableNumbers (program : Program) : List Nat :=
  (program.subterms.filter Expr.isReceiver).map (·.node.id) ++
    program.globals.map (·.id) ++ program.declaredNumbers

/-- The numbers of what stands for a function: calls of it and its declaration. -/
def Program.functionNumbers (program : Program) : List Nat :=
  (program.subterms.filter Expr.isCall).map (·.node.id) ++ program.procedures.map (·.id)

private theorem map_flatMap_sublist {values : List α} {parts : α → List Expr}
    {numbers : α → List Nat} (included : ∀ value, ((parts value).map (·.node.id)).Sublist
      (numbers value)) :
    ((values.flatMap parts).map (·.node.id)).Sublist (values.flatMap numbers) := by
  induction values with
  | nil => exact .slnil
  | cons head tail induction =>
      simpa using (included head).append induction

theorem Program.expressionNumbers_sublist (program : Program) :
    program.expressionNumbers.Sublist program.numbers := by
  rw [Program.expressionNumbers, Program.subterms, List.map_append]
  apply List.Sublist.append
  · exact map_flatMap_sublist fun declaration => List.sublist_cons_self _ _
  · exact map_flatMap_sublist fun procedure =>
      (List.sublist_append_left _ _).trans (List.sublist_cons_self _ _)

private theorem globals_numbers_perm (declarations : List Global) :
    (declarations.flatMap Global.numbers).Perm
      ((declarations.flatMap Global.subterms).map (·.node.id) ++ declarations.map (·.id)) := by
  induction declarations with
  | nil => exact .refl _
  | cons head tail induction =>
      rw [List.perm_iff_count] at induction ⊢
      intro number
      have rest := induction number
      simp only [Global.numbers, Global.subterms, Expr.numbersOf?, List.flatMap_cons,
        List.map_append, List.map_cons, List.count_append, List.count_cons] at rest ⊢
      omega

private theorem procedures_numbers_perm (procedures : List Procedure) :
    (procedures.flatMap Procedure.numbers).Perm
      ((procedures.flatMap Procedure.subterms).map (·.node.id) ++
        (procedures.flatMap fun procedure =>
          (Stmt.nestedInAll procedure.body).filterMap Stmt.declaredNumber?) ++
        procedures.map (·.id)) := by
  induction procedures with
  | nil => exact .refl _
  | cons head tail induction =>
      rw [List.perm_iff_count] at induction ⊢
      intro number
      have rest := induction number
      simp only [Procedure.numbers, Procedure.subterms, Stmt.numbersOfAll, List.flatMap_cons,
        List.map_append, List.map_cons, List.count_append, List.count_cons] at rest ⊢
      omega

theorem Program.numbers_perm (program : Program) :
    program.numbers.Perm (program.expressionNumbers ++
      (program.globals.map (·.id) ++ program.declaredNumbers) ++
      program.procedures.map (·.id)) := by
  have globals := List.perm_iff_count.mp (globals_numbers_perm program.globals)
  have procedures := List.perm_iff_count.mp (procedures_numbers_perm program.procedures)
  rw [List.perm_iff_count]
  intro number
  have inGlobals := globals number
  have inProcedures := procedures number
  simp only [Program.numbers, Program.expressionNumbers, Program.subterms,
    Program.declaredNumbers, List.map_append, List.count_append] at inGlobals inProcedures ⊢
  omega

end Plc
