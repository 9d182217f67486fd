import Mathlib.Data.List.Basic
import Plc.Proofs.Lexical.Views

/-! What a block leaves behind. Executing statements adds the names that they declare to the
current scope, and nothing to any other scope that was there before; the blocks, rounds and
calls inside of them add nothing at all. -/

namespace Plc

/-! ## Names that are added -/

/-- From `before` to `after`, the scope that was the current one has gained a variable of that
name, which may change and has a cell of its own. -/
structure Machine.Gains (before after : Machine) (name : String) : Prop where
  free : (before.scopes.scope before.current).lookup name = none
  bound : ∃ found, (after.scopes.scope before.current).lookup name = some found ∧
    found.isMutable = true ∧ before.cells.size ≤ found.cell

namespace Machine.Gains

variable {before middle after : Machine} {name : String} {gains : Nat → String → Prop}

theorem framed (gained : before.Gains middle name) (framed : middle.Framed gains after)
    (current : middle.current = before.current)
    (present : middle.current < middle.scopes.places.size) : before.Gains after name := by
  rcases gained.bound with ⟨found, known, isMutable, new⟩
  rw [← current] at known
  refine ⟨gained.free, found, ?_, isMutable, new⟩
  rw [← current]
  exact framed.persists _ present _ _ known

theorem of_framed (framed : before.Framed gains middle)
    (present : before.current < before.scopes.places.size) (gained : middle.Gains after name) :
    before.Gains after name := by
  rcases gained with ⟨free, found, known, isMutable, new⟩
  rw [framed.current] at free known
  refine ⟨?_, found, known, isMutable, Nat.le_trans framed.cells new⟩
  cases earlier : (before.scopes.scope before.current).lookup name with
  | none => rfl
  | some taken =>
      rw [framed.persists _ present _ _ earlier] at free
      cases free

theorem define {value : Value} (present : before.current < before.scopes.places.size)
    (ran : (Run.define before.current name true value).run before = (.ok (), after)) :
    before.Gains after name := by
  rcases Run.define_eq_ok ran with ⟨extended, defined, rfl⟩
  constructor
  · cases known : (before.scopes.scope before.current).lookup name with
    | none => rfl
    | some taken =>
        have refused := (Scope.defineVariable?_eq_none_iff _ name
          ⟨name, .any, true, before.cells.size⟩).mpr (Option.isSome_of_eq_some known)
        rw [refused] at defined
        cases defined
  · refine ⟨⟨name, .any, true, before.cells.size⟩, ?_, rfl, Nat.le_refl _⟩
    rw [Scope.Tree.lookup_setScope_defined defined present]
    simp

end Machine.Gains

section

variable {bound rounds : Nat} {machine after : Machine}

theorem Stmt.execute_gains {statement : Stmt} {flow : Flow}
    (present : machine.current < machine.scopes.places.size)
    (ran : (statement.execute (Machine.invoke bound) rounds).run machine = (.ok flow, after))
    {name : String} (declared : name ∈ statement.declaredNames) : machine.Gains after name := by
  cases statement with
  | declaration id other typeName value =>
      cases List.mem_singleton.mp declared
      rcases Run.bind_eq_ok ran with ⟨initial, middle, evaluated, ran⟩
      rcases Run.bind_eq_ok ran with ⟨_, _, located, ran⟩
      cases located
      rcases Run.bind_eq_ok ran with ⟨_, last, defined, ran⟩
      cases ran
      have framed :=
        (Expr.evaluateInitial_declares (Machine.invoke_declares bound) value).framed evaluated
      have stays : middle.current < middle.scopes.places.size := by
        rw [framed.current]
        exact Nat.lt_of_lt_of_le present framed.places
      exact .of_framed framed present (.define stays defined)
  | _ => cases declared

theorem Stmt.executeAll_gains {statements : List Stmt}
    (present : machine.current < machine.scopes.places.size)
    (ran : (Stmt.executeAll (Machine.invoke bound) rounds statements).run machine =
      (.ok .normal, after))
    {name : String} (declared : name ∈ statements.flatMap Stmt.declaredNames) :
    machine.Gains after name := by
  induction statements generalizing machine with
  | nil => cases declared
  | cons head tail induction =>
      rcases Run.bind_eq_ok ran with ⟨flow, middle, executed, rest⟩
      cases flow with
      | returned value => cases rest
      | normal =>
          have first :=
            (head.execute_declares (Machine.invoke_declares bound) rounds).framed executed
          have stays : middle.current < middle.scopes.places.size := by
            rw [first.current]
            exact Nat.lt_of_lt_of_le present first.places
          rcases List.mem_append.mp declared with here | later
          · have others := Stmt.executeAll_declares (Machine.invoke_declares bound) rounds tail middle
            rw [rest] at others
            exact (head.execute_gains present executed here).framed others first.current stays
          · exact .of_framed first present (induction stays rest later)

end

theorem Stmt.mem_declaredNames_iff {statements : List Stmt} {name : String} :
    name ∈ statements.flatMap Stmt.declaredNames ↔
      ∃ id typeName value, Stmt.declaration id name typeName value ∈ statements := by
  rw [List.mem_flatMap]
  constructor
  · rintro ⟨statement, member, declares⟩
    cases statement with
    | declaration id other typeName value =>
        cases List.mem_singleton.mp declares
        exact ⟨id, typeName, value, member⟩
    | _ => cases declares
  · rintro ⟨id, typeName, value, member⟩
    exact ⟨_, member, List.mem_singleton.mpr rfl⟩

/-- However the execution of statements ends, the current scope is the one of before, and all
scopes of before are inside of the same scopes and have all their names with the same meaning.
A name that one of them has gained is in the current scope, and a declaration among the
statements has it; those are all there if the statements complete. Blocks, rounds of a loop, all
statements but declarations, expressions and calls add no name to any scope of before. -/
theorem Stmt.executeAll_scoped (bound rounds : Nat) (statements : List Stmt) :
    (∀ machine : Machine, machine.Framed
      (fun position name => position = machine.current ∧
        ∃ id typeName value, Stmt.declaration id name typeName value ∈ statements)
      ((Stmt.executeAll (Machine.invoke bound) rounds statements).run machine).2) ∧
    (∀ machine after : Machine, machine.current < machine.scopes.places.size →
      (Stmt.executeAll (Machine.invoke bound) rounds statements).run machine =
        (.ok .normal, after) →
      ∀ id name typeName value, Stmt.declaration id name typeName value ∈ statements →
        machine.Gains after name) ∧
    (∀ statement : Stmt, (∀ id name typeName value,
        statement ≠ .declaration id name typeName value) →
      (statement.execute (Machine.invoke bound) rounds).Declares []) ∧
    (Run.inChild (Stmt.executeAll (Machine.invoke bound) rounds statements)).Declares [] ∧
    (∀ condition : Expr, (Run.repeatWhile
        (do Run.check (← condition.evaluate (Machine.invoke bound)).asBoolean)
        (Run.inChild (Stmt.executeAll (Machine.invoke bound) rounds statements))
        rounds).Declares []) ∧
    (∀ value cases, (Case.executeAll (Machine.invoke bound) rounds value cases).Declares []) ∧
    (∀ expression : Expr, (expression.evaluate (Machine.invoke bound)).Declares []) ∧
    (∀ function arguments, (Machine.invoke bound function arguments).Declares []) := by
  have calls := Machine.invoke_declares bound
  have executed := Stmt.executeAll_declares calls rounds statements
  refine ⟨fun machine => ?_, fun machine after present ran id name typeName value member => ?_,
    fun statement other => ?_, executed.inChild, fun condition => ?_,
    Case.executeAll_declares calls rounds, Expr.evaluate_declares calls, calls⟩
  · exact (executed machine).weaken fun _ _ _ gained =>
      ⟨gained.1, Stmt.mem_declaredNames_iff.mp gained.2⟩
  · exact Stmt.executeAll_gains present ran
      (Stmt.mem_declaredNames_iff.mpr ⟨id, typeName, value, member⟩)
  · have declares := statement.execute_declares calls rounds
    cases statement with
    | declaration id name typeName value => exact absurd rfl (other id name typeName value)
    | _ => exact declares
  · exact .repeatWhile ((condition.evaluate_declares calls).bind_nil fun _ => .check _)
      executed.inChild rounds

/-- A declaration beside a block that declares the same name and another one: only the
declaration is seen outside of the block. -/
theorem Stmt.executeAll_scoped_of_shadowing :
    let shadowed : Stmt := .declaration 1 "x" none (some (.literal ⟨2, 8⟩ (.integer 1)))
    let inner : List Stmt :=
      [.declaration 3 "x" none (some (.literal ⟨4, 30⟩ (.integer 2))), .declaration 5 "y" none none]
    let statements : List Stmt :=
      [shadowed, .conditional (.literal ⟨6, 14⟩ (.boolean true)) inner []]
    let machine := Machine.standard (.empty none)
    let after := ((Stmt.executeAll (Machine.invoke 5) 5 statements).run machine).2
    machine.Gains after "x" ∧ after.current = machine.current ∧
      (after.scopes.scope machine.current).lookup "y" =
        (machine.scopes.scope machine.current).lookup "y" := by
  intro shadowed inner statements machine after
  have holds := Stmt.executeAll_scoped 5 5 statements
  have framed := holds.1 machine
  have completes : ((Stmt.executeAll (Machine.invoke 5) 5 statements).run machine).1 =
      .ok .normal := by decide +kernel
  refine ⟨holds.2.1 machine after Nat.zero_lt_one (Prod.ext completes rfl) 1 "x" none _
    List.mem_cons_self, framed.current, framed.unchanged _ Nat.zero_lt_one "y" ?_⟩
  rintro ⟨_, id, typeName, value, member⟩
  simp [statements, shadowed] at member

end Plc
