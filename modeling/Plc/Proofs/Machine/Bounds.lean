import Plc.Proofs.Machine.Ensures

/-! Larger bounds. What is finished within the bounds of a run goes the same way within all
larger ones, so a program that finishes within some bounds has one result. -/

namespace Plc

/-- Wherever the first action finishes, the second does the same. -/
def Run.ExtendedBy (narrow wide : Run α) : Prop :=
  ∀ machine, (narrow.run machine).1 = .error .unfinished ∨
    wide.run machine = narrow.run machine

namespace Run.ExtendedBy

variable {narrow wide : Run α}

theorem refl (action : Run α) : ExtendedBy action action :=
  fun _ => .inr rfl

theorem of_unfinished (wide : Run α) : ExtendedBy (throw .unfinished) wide :=
  fun _ => .inl rfl

theorem bind {next more : α → Run β} (first : ExtendedBy narrow wide)
    (rest : ∀ value, ExtendedBy (next value) (more value)) :
    ExtendedBy (narrow >>= next) (wide >>= more) := by
  intro machine
  rw [run_bind, run_bind]
  cases ran : narrow.run machine with
  | mk result after =>
      rcases first machine with unfinished | same
      · rw [ran] at unfinished
        cases unfinished
        exact .inl rfl
      · rw [same, ran]
        cases result with
        | ok value => exact rest value after
        | error stop => exact .inr rfl

theorem inScope (extended : ExtendedBy narrow wide) (position : Nat) :
    ExtendedBy (inScope position narrow) (inScope position wide) := by
  intro machine
  have opened : ∀ action : Run α, (Run.inScope position action).run machine =
      ((action.run { machine with current := position }).1,
        { (action.run { machine with current := position }).2 with
          current := machine.current }) := fun _ => rfl
  rw [opened, opened]
  rcases extended { machine with current := position } with unfinished | same
  · exact .inl unfinished
  · exact .inr (by rw [same])

theorem inChild (extended : ExtendedBy narrow wide) :
    ExtendedBy (inChild narrow) (inChild wide) :=
  (refl _).bind fun _ => (refl _).bind fun place => extended.inScope place

theorem body {narrow wide : Run Flow} (extended : ExtendedBy narrow wide) (closure : Nat)
    (bindings : List (String × Value)) {finish : Flow → Run Value} :
    ExtendedBy
      (do
        let scope ← newScope closure
        defineAll scope bindings
        finish (← Run.inScope scope narrow))
      (do
        let scope ← newScope closure
        defineAll scope bindings
        finish (← Run.inScope scope wide)) := by
  apply (refl _).bind
  intro scope
  apply (refl _).bind
  intro _
  exact (extended.inScope scope).bind fun _ => .refl _

theorem repeatWhile {test otherTest : Run Bool} {body otherBody : Run Flow}
    (tests : ExtendedBy test otherTest) (bodies : ExtendedBy body otherBody)
    {rounds more : Nat} (fewer : rounds ≤ more) :
    ExtendedBy (repeatWhile test body rounds) (repeatWhile otherTest otherBody more) := by
  induction rounds generalizing more with
  | zero => exact .of_unfinished _
  | succ rounds induction =>
      cases more with
      | zero => omega
      | succ more =>
          apply tests.bind
          intro again
          cases again with
          | false => exact .refl _
          | true =>
              apply bodies.bind
              intro flow
              cases flow with
              | normal => exact induction (by omega)
              | returned value => exact .refl _

theorem forM {action other : ι → Run Unit} (each : ∀ item, ExtendedBy (action item) (other item))
    (items : List ι) : ExtendedBy (items.forM action) (items.forM other) := by
  induction items with
  | nil => exact .refl _
  | cons head tail induction => exact (each head).bind fun _ => induction

end Run.ExtendedBy

section

variable {invoke wider : Invoke}

mutual

theorem Expr.evaluate_extendedBy
    (calls : ∀ function arguments, (invoke function arguments).ExtendedBy
      (wider function arguments)) :
    ∀ expression : Expr, (expression.evaluate invoke).ExtendedBy (expression.evaluate wider)
  | .literal _ _ | .access _ _ => .refl _
  | .group _ inner => inner.evaluate_extendedBy calls
  | .binary _ _ left right =>
      (left.evaluate_extendedBy calls).bind fun _ =>
        (right.evaluate_extendedBy calls).bind fun _ => .refl _
  | .element _ _ index => (index.evaluate_extendedBy calls).bind fun _ => .refl _
  | .call _ _ arguments =>
      (Expr.evaluateAll_extendedBy calls arguments).bind fun _ =>
        (Run.ExtendedBy.refl _).bind fun _ => (Run.ExtendedBy.refl _).bind fun function =>
          calls function _
  | .list _ elements =>
      (Expr.evaluateAll_extendedBy calls elements).bind fun _ => .refl _

theorem Expr.evaluateAll_extendedBy
    (calls : ∀ function arguments, (invoke function arguments).ExtendedBy
      (wider function arguments)) :
    ∀ expressions : List Expr,
      (Expr.evaluateAll invoke expressions).ExtendedBy (Expr.evaluateAll wider expressions)
  | [] => .refl _
  | head :: tail =>
      (head.evaluate_extendedBy calls).bind fun _ =>
        (Expr.evaluateAll_extendedBy calls tail).bind fun _ => .refl _

end

theorem Expr.evaluateInitial_extendedBy
    (calls : ∀ function arguments, (invoke function arguments).ExtendedBy
      (wider function arguments)) :
    ∀ value : Option Expr,
      (Expr.evaluateInitial invoke value).ExtendedBy (Expr.evaluateInitial wider value)
  | some value => value.evaluate_extendedBy calls
  | none => .refl _

theorem Expr.assign_extendedBy
    (calls : ∀ function arguments, (invoke function arguments).ExtendedBy
      (wider function arguments))
    (receiver value : Expr) :
    (receiver.assign invoke value).ExtendedBy (receiver.assign wider value) := by
  cases receiver with
  | access node name =>
      exact (Run.ExtendedBy.refl _).bind fun _ =>
        (value.evaluate_extendedBy calls).bind fun _ => .refl _
  | element node name index =>
      exact (Run.ExtendedBy.refl _).bind fun _ =>
        (index.evaluate_extendedBy calls).bind fun _ =>
          (value.evaluate_extendedBy calls).bind fun _ => .refl _
  | _ => exact .refl _

variable {rounds more : Nat}

mutual

theorem Stmt.execute_extendedBy
    (calls : ∀ function arguments, (invoke function arguments).ExtendedBy
      (wider function arguments)) (fewer : rounds ≤ more) :
    ∀ statement : Stmt,
      (statement.execute invoke rounds).ExtendedBy (statement.execute wider more)
  | .expression value => (value.evaluate_extendedBy calls).bind fun _ => .refl _
  | .declaration _ _ _ value =>
      (Expr.evaluateInitial_extendedBy calls value).bind fun _ => .refl _
  | .assignment receiver value =>
      (receiver.assign_extendedBy calls value).bind fun _ => .refl _
  | .conditional condition whenTrue whenFalse => by
      refine (condition.evaluate_extendedBy calls).bind fun _ =>
        (Run.ExtendedBy.refl _).bind fun holds => ?_
      cases holds with
      | true => exact (Stmt.executeAll_extendedBy calls fewer whenTrue).inChild
      | false => exact (Stmt.executeAll_extendedBy calls fewer whenFalse).inChild
  | .switch condition cases =>
      (condition.evaluate_extendedBy calls).bind fun value =>
        Case.executeAll_extendedBy calls fewer value cases
  | .loop condition body =>
      .repeatWhile ((condition.evaluate_extendedBy calls).bind fun _ => .refl _)
        (Stmt.executeAll_extendedBy calls fewer body).inChild fewer
  | .returns value => (value.evaluate_extendedBy calls).bind fun _ => .refl _

theorem Stmt.executeAll_extendedBy
    (calls : ∀ function arguments, (invoke function arguments).ExtendedBy
      (wider function arguments)) (fewer : rounds ≤ more) :
    ∀ statements : List Stmt,
      (Stmt.executeAll invoke rounds statements).ExtendedBy
        (Stmt.executeAll wider more statements)
  | [] => .refl _
  | head :: tail => by
      apply (head.execute_extendedBy calls fewer).bind
      intro flow
      cases flow with
      | normal => exact Stmt.executeAll_extendedBy calls fewer tail
      | returned value => exact .refl _

theorem Case.executeAll_extendedBy
    (calls : ∀ function arguments, (invoke function arguments).ExtendedBy
      (wider function arguments)) (fewer : rounds ≤ more) (value : Value) :
    ∀ cases : List Case,
      (Case.executeAll invoke rounds value cases).ExtendedBy
        (Case.executeAll wider more value cases)
  | [] => .refl _
  | .mk none body :: _ => (Stmt.executeAll_extendedBy calls fewer body).inChild
  | .mk (some test) body :: tail => by
      refine (test.evaluate_extendedBy calls).bind fun _ =>
        (Run.ExtendedBy.refl _).bind fun same => ?_
      cases same with
      | true => exact (Stmt.executeAll_extendedBy calls fewer body).inChild
      | false => exact Case.executeAll_extendedBy calls fewer value tail

end

end

theorem Machine.invoke_extendedBy {bound more : Nat} (lower : bound ≤ more)
    (function : Machine.Function) (arguments : List Value) :
    (Machine.invoke bound function arguments).ExtendedBy
      (Machine.invoke more function arguments) := by
  induction bound generalizing more function arguments with
  | zero => exact .of_unfinished _
  | succ bound induction =>
      cases more with
      | zero => omega
      | succ more =>
          have lower : bound ≤ more := by omega
          unfold Machine.invoke
          split
          · exact .refl _
          · exact .refl _
          · rename_i parameters body closure _
            have executed := Stmt.executeAll_extendedBy (induction lower) lower body
            apply (Run.ExtendedBy.refl _).bind
            intro machine
            split
            · exact (Run.ExtendedBy.refl _).bind fun _ => executed.body closure _
            · exact executed.body closure _

theorem Program.run_extendedBy (program : Program) {bound more : Nat} (lower : bound ≤ more) :
    (program.run bound).ExtendedBy (program.run more) := by
  have globals : ∀ declaration : Global,
      (declaration.define bound).ExtendedBy (declaration.define more) := fun declaration =>
    (Expr.evaluateInitial_extendedBy (Machine.invoke_extendedBy lower) declaration.value).bind
      fun _ => .refl _
  apply (Run.ExtendedBy.forM globals program.globals).bind
  intro _
  apply (Run.ExtendedBy.refl _).bind
  intro _
  apply (Run.ExtendedBy.refl _).bind
  intro main
  exact Machine.invoke_extendedBy lower main []

end Plc
