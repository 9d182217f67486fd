import Plc.Proofs.Machine.Bounds
import Plc.Proofs.Scope.Edit
import Plc.Proofs.Session.Globals
import Plc.Proofs.Termination.Finishes

/-! Programs that finish. All functions of a program are known to each other when it runs, but
the checker knows them one after the other. So in a program without lists, loops and functions
that call themselves, calls go to earlier and earlier functions, and are nested no deeper than
there are functions. -/

namespace Plc

open Typing

/-! ## Calls -/

variable {table : String → Nat → Option Machine.Function}

theorem Native.print_finished {arguments : List Value} (memory : Memory)
    (scalars : ∀ value ∈ arguments, value.IsScalar) :
    ((Native.print arguments).run memory).1 ≠ .error .unfinished := by
  have scalar : (arguments.headD .nil).IsScalar := by
    cases arguments with
    | nil => exact Value.isScalar_nil
    | cons head tail => exact scalars head List.mem_cons_self
  rcases scalar.pieces? memory.lists with ⟨pieces, text⟩
  have opened : ∀ next : Memory → ExceptT Stop (StateM Memory) Value,
      (get >>= next).run memory = (next memory).run memory := fun _ => rfl
  have followed : ∀ action : ExceptT Stop (StateM Memory) Unit,
      (action >>= fun _ => pure Value.nil).run memory =
        (ExceptT.bindCont (fun _ => pure .nil) (action.run memory).1 :
          StateM Memory (Except Stop Value)) (action.run memory).2 := fun _ => rfl
  have written : (Native.write (pieces ++ ["\n"])).run memory =
      (if (memory.output.writeAll (pieces ++ ["\n"])).1 then .ok ()
        else .error (.fault (.output "closed")),
      { memory with output := (memory.output.writeAll (pieces ++ ["\n"])).2 }) := rfl
  rw [Native.print, opened, text]
  dsimp only
  rw [followed, written]
  intro unfinished
  split at unfinished <;> cases unfinished

theorem Machine.invoke_print_finishes {function : Machine.Function}
    (callable : function.callable = .native Native.print) (bound : Nat)
    {arguments : List Value} (scalars : ∀ value ∈ arguments, value.IsScalar) :
    (Machine.invoke (bound + 1) function arguments).Finishes table Value.IsScalar := by
  intro machine ready
  have opened : (Machine.invoke (bound + 1) function arguments).run machine =
      (((Native.print arguments).run machine.memory).1,
        { machine with memory := ((Native.print arguments).run machine.memory).2 }) := by
    rw [Machine.invoke, callable]
    rfl
  have finished := Native.print_finished machine.memory scalars
  unfold Run.Ensures
  rw [opened]
  cases ran : (Native.print arguments).run machine.memory with
  | mk result memory =>
      rw [ran] at finished
      cases result with
      | ok value =>
          have nothing : value = .nil := by
            rcases (Native.print_result ran).2 with given | given | given <;> cases given
            rfl
          have framed : machine.Framed (fun _ _ => False) { machine with memory } :=
            .of_scopes_eq rfl rfl (Nat.le_refl _)
          rw [nothing]
          exact ⟨Value.isScalar_nil, ready.framed framed ready.scalars⟩
      | error stop => exact fun unfinished => finished (unfinished ▸ rfl)

theorem Machine.invoke_declared_finishes {function : Machine.Function} {parameters : List String}
    {body : List Stmt} (callable : function.callable = .declared parameters body Machine.global)
    {bound : Nat}
    (finishes : (Stmt.executeAll (Machine.invoke bound) bound body).Finishes table Flow.IsScalar)
    {arguments : List Value} (scalars : ∀ value ∈ arguments, value.IsScalar) :
    (Machine.invoke (bound + 1) function arguments).Finishes table Value.IsScalar := by
  intro machine ready
  have left := Machine.invoke_declares (bound + 1) function arguments machine
  have enters : machine.Framed (fun _ _ => False) (machine.child Machine.global).2 :=
    .child machine Machine.global
  have bindings : ∀ binding ∈ parameters.zip arguments, binding.2.IsScalar :=
    fun binding member => scalars binding.2 (List.of_mem_zip member).2
  have defined := Run.Finishes.defineAll (machine.child Machine.global).1 _ bindings _
    (ready.framed enters ready.scalars)
  have inside : (Machine.invoke (bound + 1) function arguments).Ensures machine
      (fun value after => value.IsScalar ∧ ∀ value ∈ after.cells, value.IsScalar)
      (fun stop _ => stop ≠ .unfinished) := by
    rw [Run.Ensures, Moment.invoke_declared_run bound machine callable ready.sees.present]
    apply defined.bind
    intro _ prepared ran holds
    have framed := Run.Declares.defineAll_framed (machine.child Machine.global).1
      (parameters.zip arguments) (machine.child Machine.global).2
    rw [ran] at framed
    -- in the new scope nothing but the current scope is different
    have moved : Machine.Framed _
        { (machine.child Machine.global).2 with current := machine.scopes.places.size }
        { prepared with current := machine.scopes.places.size } :=
      ⟨rfl, framed.places, framed.cells, framed.outer, framed.unchanged, framed.persists,
        framed.functions⟩
    have entered := finishes { prepared with current := machine.scopes.places.size }
      ⟨(ready.sees.child (.inr rfl)).framed moved, holds.2.scalars⟩
    have executed : (Run.inScope (machine.child Machine.global).1
        (Stmt.executeAll (Machine.invoke bound) bound body)).Ensures prepared
        (fun flow after => flow.IsScalar ∧ ∀ value ∈ after.cells, value.IsScalar)
        (fun stop _ => stop ≠ .unfinished) := by
      apply Run.ensures_inScope
      apply entered.mono
      · intro flow after _ holds
        exact ⟨holds.1, holds.2.scalars⟩
      · exact fun _ _ finished => finished
    apply executed.bind
    intro flow after _ holds
    cases flow with
    | normal => exact Run.ensures_pure ⟨Value.isScalar_nil, holds.2⟩
    | returned value => exact Run.ensures_pure holds
  apply inside.mono
  · intro value after ran holds
    rw [ran] at left
    exact ⟨holds.1, ready.framed left holds.2⟩
  · exact fun _ _ finished => finished

/-! ## Functions -/

/-- The machine knows the function of the host and those of the program. -/
structure Program.Provides (program : Program)
    (table : String → Nat → Option Machine.Function) : Prop where
  print : ∀ function, table "print" 1 = some function → function.callable = .native Native.print
  procedures : ∀ procedure ∈ program.procedures,
    table procedure.name procedure.parameters.length = some procedure.function
  others : ∀ name arity function, table name arity = some function →
    program.DeclaredBefore program.procedures.length name arity

/-- The bodies of all functions do without loops, and call what was declared before them. -/
structure Program.Descends (program : Program) : Prop where
  loops : ∀ procedure ∈ program.procedures, ∀ statement ∈ Stmt.nestedInAll procedure.body,
    statement.isLoop = false
  calls : ∀ (index : Nat) (procedure : Procedure),
    program.procedures[index]? = some procedure →
      ∀ term ∈ procedure.subterms, term.Permitted (program.DeclaredBefore index)

section

variable {program : Program}

/-- Calls of what is declared before the function at `index` are nested no deeper than that. -/
theorem Program.Descends.invoke_finishes (descends : program.Descends)
    (provides : program.Provides table) (index : Nat) {bound : Nat} (enough : index < bound) :
    (Machine.invoke bound).Finishes table (program.DeclaredBefore index) := by
  induction index using Nat.strongRecOn generalizing bound with
  | ind index induction =>
      intro name function arguments declared known scalars
      cases bound with
      | zero => omega
      | succ bound =>
          rcases declared with same | ⟨earlier, callee, before, found, rfl, arity⟩
          · have parts := Prod.mk.inj same
            rw [parts.1, parts.2] at known
            exact Machine.invoke_print_finishes (provides.print function known) bound scalars
          · rw [← arity, provides.procedures callee (List.mem_of_getElem? found)] at known
            cases known
            apply Machine.invoke_declared_finishes rfl _ scalars
            exact Stmt.executeAll_finishes (Machine.invoke_declares bound)
              (induction earlier before (by omega)) bound callee.body
              (descends.calls earlier callee found)
              (descends.loops callee (List.mem_of_getElem? found))

/-! ## Declarations -/

theorem Global.defineAll_finishes {allowed : String → Nat → Prop} {bound : Nat}
    (calls : (Machine.invoke bound).Finishes table allowed) (declarations : List Global)
    (permitted : ∀ declaration ∈ declarations, ∀ term ∈ declaration.subterms,
      term.Permitted allowed) :
    (declarations.forM (Global.define bound)).Finishes table fun _ => True := by
  induction declarations with
  | nil => exact Run.Finishes.pure trivial
  | cons head tail induction =>
      rcases List.forall_mem_cons.mp permitted with ⟨headPermitted, tailPermitted⟩
      have defined : (head.define bound).Finishes table fun _ => True := by
        apply (Expr.evaluateInitial_finishes calls head.value headPermitted).bind
        intro value scalar
        exact .define Machine.global head.name head.isMutable scalar
      exact defined.bind fun _ _ => induction tailPermitted

theorem Machine.Ready.outermost {machine : Machine} (current : machine.current = Machine.global)
    (present : Machine.global < machine.scopes.places.size)
    (root : machine.scopes.outer Machine.global = [])
    (scalars : ∀ value ∈ machine.cells, value.IsScalar) :
    machine.Ready (machine.scopes.scope Machine.global).lookupFunction := by
  refine ⟨⟨?_, present, root, ?_, fun _ _ => rfl⟩, scalars⟩
  · intro place member
    rw [current, Scope.Tree.path, root] at member
    rw [List.mem_singleton.mp member]
    exact present
  · intro name arity
    rw [current, Scope.Tree.lookupFunction_eq, root]
    exact Option.or_none

theorem Procedure.defineAll_ready (procedures : List Procedure) {machine : Machine}
    (ready : machine.Ready table) (current : machine.current = Machine.global) :
    (procedures.forM Procedure.define).Ensures machine
      (fun _ after => after.current = Machine.global ∧
        after.Ready (after.scopes.scope Machine.global).lookupFunction)
      (fun stop _ => stop ≠ .unfinished) := by
  induction procedures generalizing machine table with
  | nil =>
      exact Run.ensures_pure ⟨current, .outermost current ready.sees.present ready.sees.root
        ready.scalars⟩
  | cons head tail induction =>
      have opened : head.define.run machine =
          (if (machine.defineFunction Machine.global head.function).1 then .ok ()
            else .error (.fault (.redefinition head.name)),
          (machine.defineFunction Machine.global head.function).2) := rfl
      have places := machine.outer_defineFunction Machine.global head.function
      have defined : head.define.Ensures machine
          (fun _ after => after.current = Machine.global ∧
            after.Ready (after.scopes.scope Machine.global).lookupFunction)
          (fun stop _ => stop ≠ .unfinished) := by
        apply Run.Ensures.intro
        · intro _ after ran
          rw [opened] at ran
          rw [← (Prod.mk.inj ran).2]
          refine ⟨current, .outermost current ?_ ?_ ready.scalars⟩
          · rw [places.1]
            exact ready.sees.present
          · rw [places.2]
            exact ready.sees.root
        · intro stop after ran
          rw [opened] at ran
          have result := (Prod.mk.inj ran).1
          split at result <;> cases result
          exact Stop.fault_ne_unfinished _
      apply defined.bind
      intro _ after _ holds
      exact induction holds.2 holds.1

theorem Machine.standard_lookupFunction (output : Output) {name : String} {arity : Nat}
    {function : Machine.Function}
    (found : ((Machine.standard output).scopes.scope Machine.global).lookupFunction name arity =
      some function) :
    (name, arity) = ("print", 1) ∧ function.callable = .native Native.print := by
  rw [Machine.standard, Machine.defineNative,
    Machine.lookupFunction_defineFunction_eq _ Nat.zero_lt_one] at found
  simp only [true_and] at found
  split at found
  · rename_i same
    cases found
    exact ⟨same, rfl⟩
  · cases found

theorem Program.provides_of_adds {output : Output} {before after : Machine}
    (start : before.Ready
      ((Machine.standard output).scopes.scope Machine.global).lookupFunction)
    (adds : Machine.Adds [] program.procedures before after) :
    program.Provides (after.scopes.scope Machine.global).lookupFunction := by
  have first : ∀ {name arity function},
      (before.scopes.scope Machine.global).lookupFunction name arity = some function →
        (name, arity) = ("print", 1) ∧ function.callable = .native Native.print := by
    intro name arity function known
    rw [start.sees.outermost] at known
    exact Machine.standard_lookupFunction output known
  have known : ∀ {name arity function},
      (after.scopes.scope Machine.global).lookupFunction name arity = some function →
        (before.scopes.scope Machine.global).lookupFunction name arity = some function ∨
          ∃ procedure ∈ program.procedures,
            procedure.name = name ∧ procedure.parameters.length = arity := by
    intro name arity function found
    by_cases declared : (name, arity) ∈ program.procedures.map fun procedure =>
        (procedure.name, procedure.parameters.length)
    · rcases List.mem_map.mp declared with ⟨procedure, member, same⟩
      exact .inr ⟨procedure, member, (Prod.mk.inj same).1, (Prod.mk.inj same).2⟩
    · have same := adds.functions.others (name, arity) declared
      exact .inl (same ▸ found)
  constructor
  · intro function found
    have print : ((Machine.standard output).scopes.scope Machine.global).lookupFunction "print" 1 =
        some ⟨Machine.untyped "print" 1, .native Native.print⟩ := rfl
    rw [← start.sees.outermost] at print
    have still := adds.functions.persists ("print", 1) print
    rw [found] at still
    cases still
    rfl
  · intro procedure member
    rcases adds.functions.added procedure member with ⟨function, found, rfl⟩
    exact found
  · intro name arity function found
    rcases known found with old | ⟨procedure, member, rfl, rfl⟩
    · exact .inl (first old).1
    · rcases List.getElem?_of_mem member with ⟨index, declared⟩
      rcases List.getElem?_eq_some_iff.mp declared with ⟨bounded, _⟩
      exact .inr ⟨index, procedure, bounded, declared, rfl, rfl⟩

theorem Machine.standard_ready (output : Output) :
    (Machine.standard output).Ready
      ((Machine.standard output).scopes.scope Machine.global).lookupFunction :=
  .outermost rfl Nat.zero_lt_one rfl fun value member => absurd member (Array.not_mem_empty value)

/-- A program that descends has a result within any bounds above the number of its
functions. -/
theorem Program.Descends.run_finishes (descends : program.Descends)
    (globals : ∀ declaration ∈ program.globals, ∀ term ∈ declaration.subterms,
      term.Permitted (program.DeclaredBefore 0))
    (output : Output) {bound : Nat} (enough : program.procedures.length < bound) :
    (program.run bound).Ensures (Machine.standard output) (fun _ _ => True)
      (fun stop _ => stop ≠ .unfinished) := by
  have prints : (Machine.invoke bound).Finishes
      ((Machine.standard output).scopes.scope Machine.global).lookupFunction
      (program.DeclaredBefore 0) := by
    intro name function arguments _ known scalars
    cases bound with
    | zero => omega
    | succ bound =>
        have native := (Machine.standard_lookupFunction output known).2
        exact Machine.invoke_print_finishes native bound scalars
  have framed := Global.defineAll_framed bound program.globals (Machine.standard output)
  apply (Global.defineAll_finishes prints program.globals globals _
    (Machine.standard_ready output)).bind
  rintro _ ready ran ⟨-, start⟩
  rw [ran] at framed
  have current : ready.current = Machine.global := framed.current
  apply (Procedure.defineAll_ready program.procedures start current).bind
  rintro _ done ran ⟨current, holds⟩
  have provides := Program.provides_of_adds start
    (Procedure.defineAll_adds start.sees.present ran)
  have calls := descends.invoke_finishes provides program.procedures.length enough
  have here := holds.sees.here
  rw [current] at here
  have found := Run.findFunction_ensures here "main" 0
  apply found.bind
  rintro function _ _ ⟨known, rfl⟩
  have declared := provides.others "main" 0 function known
  apply (calls "main" function [] declared known
    (fun _ member => absurd member List.not_mem_nil) _ holds).mono
  · exact fun _ _ _ _ => trivial
  · exact fun _ _ finished => finished

end

/-! ## Checked programs -/

def Expr.isCallOf (name : String) (arity : Nat) : Expr → Bool
  | .call _ other arguments => other == name && arguments.length == arity
  | _ => false

section

variable {program : Program} {noted : Nat → Ty → Prop}

/-- A checked function that does not call itself calls what was declared before it. -/
theorem Program.descends_of_typed (typed : program.Typed noted Context.standard)
    (noLoops : ∀ procedure ∈ program.procedures, ∀ statement ∈ Stmt.nestedInAll procedure.body,
      statement.isLoop = false)
    (noRecursion : ∀ procedure ∈ program.procedures, ∀ term ∈ procedure.subterms,
      term.isCallOf procedure.name procedure.parameters.length = false) : program.Descends where
  loops := noLoops
  calls index procedure found term member := by
    rcases typed with ⟨middle, last, globals, procedures, _⟩
    apply (procedures.permitted_procedures index procedure found term member).mono
    rintro node name arguments rfl (knows | ⟨earlier, callee, before, declared, rfl, arity⟩)
    · rw [globals.knows_globals] at knows
      exact .inl (Context.knows_standard knows)
    · refine .inr ⟨earlier, callee, ?_, declared, rfl, arity⟩
      apply Nat.lt_of_le_of_ne before
      rintro rfl
      rw [found] at declared
      cases declared
      have other := noRecursion procedure (List.mem_of_getElem? found) _ member
      simp [Expr.isCallOf, arity] at other

theorem Program.globals_permitted (typed : program.Typed noted Context.standard)
    (noLists : ∀ declaration ∈ program.globals, declaration.isList = false) :
    ∀ declaration ∈ program.globals, ∀ term ∈ declaration.subterms,
      term.Permitted (program.DeclaredBefore 0) := by
  intro declaration member term part
  rcases typed with ⟨middle, last, globals, _, _⟩
  apply (globals.permitted_globals noLists declaration member term part).mono
  intro _ name arguments _ knows
  exact .inl (Context.knows_standard knows)

end

/-- A checked program without lists, loops and functions that call themselves has a result,
which is the same within all bounds above the number of its functions: what is called in a
function is `print` or was declared before it. -/
theorem Program.run_terminates {text : String} {program : Program} {annotations : Annotations}
    (accepted : Program.checkText Context.standard text = .ok (program, annotations))
    (noLists : ∀ declaration ∈ program.globals, declaration.isList = false)
    (noLoops : ∀ procedure ∈ program.procedures, ∀ statement ∈ Stmt.nestedInAll procedure.body,
      statement.isLoop = false)
    (noRecursion : ∀ procedure ∈ program.procedures, ∀ term ∈ procedure.subterms,
      term.isCallOf procedure.name procedure.parameters.length = false)
    (output : Output) :
    (∃ result after, result ≠ .error .unfinished ∧
      ∀ bound, program.procedures.length < bound →
        (program.run bound).run (Machine.standard output) = (result, after)) ∧
    (∀ declaration ∈ program.globals, ∀ node name arguments,
      Expr.call node name arguments ∈ declaration.subterms →
        program.DeclaredBefore 0 name arguments.length) ∧
    ∀ index procedure, program.procedures[index]? = some procedure →
      ∀ node name arguments, Expr.call node name arguments ∈ Procedure.subterms procedure →
        program.DeclaredBefore index name arguments.length := by
  have typed := Program.typed_of_check (Program.check_of_checkText accepted)
  have descends := Program.descends_of_typed typed noLoops noRecursion
  have globals := Program.globals_permitted typed noLists
  have least := Nat.lt_succ_self program.procedures.length
  refine ⟨?_, ?_, ?_⟩
  · cases ran : (program.run (program.procedures.length + 1)).run (Machine.standard output) with
    | mk result after =>
        have finished : result ≠ .error .unfinished := by
          rintro rfl
          exact (descends.run_finishes globals output least).stop ran rfl
        refine ⟨result, after, finished, ?_⟩
        intro bound enough
        have extended := program.run_extendedBy (Nat.succ_le_of_lt enough)
          (Machine.standard output)
        rw [ran] at extended
        exact extended.resolve_left finished
  · intro declaration member node name arguments part
    exact globals declaration member _ part
  · intro index procedure found node name arguments part
    exact descends.calls index procedure found _ part

/-- The last function calls both of those before it, and the second calls the first. -/
theorem Program.run_terminates_of_nesting :
    ∃ program annotations,
      Program.checkText Context.standard
        "VAR n = 2; FUN twice(x: Integer): Integer DO RETURN x * n; END
         FUN show(x: Integer) DO print(twice(x)); END
         FUN main(): Integer DO IF n > 1 DO show(n); END RETURN twice(twice(3)); END" =
          .ok (program, annotations) ∧
      program.procedures.length = 3 ∧
      ∃ after, ∀ bound, 3 < bound →
        (program.run bound).run (Machine.standard (.empty none)) = (.ok (.integer 12), after) := by
  have computed : ((Program.checkText Context.standard
      "VAR n = 2; FUN twice(x: Integer): Integer DO RETURN x * n; END
         FUN show(x: Integer) DO print(twice(x)); END
         FUN main(): Integer DO IF n > 1 DO show(n); END RETURN twice(twice(3)); END").toOption.any
      fun accepted =>
        decide (∀ declaration ∈ accepted.1.globals, declaration.isList = false) &&
        decide (∀ procedure ∈ accepted.1.procedures,
          ∀ statement ∈ Stmt.nestedInAll procedure.body, statement.isLoop = false) &&
        decide (∀ procedure ∈ accepted.1.procedures, ∀ term ∈ procedure.subterms,
          term.isCallOf procedure.name procedure.parameters.length = false) &&
        decide (accepted.1.procedures.length = 3) &&
        decide (((accepted.1.run 4).run (Machine.standard (.empty none))).1.toOption =
          some (.integer 12))) = true := by decide +kernel
  rcases exists_ok_of_any computed with ⟨⟨program, annotations⟩, accepted, computed⟩
  simp only [Bool.and_eq_true, decide_eq_true_eq] at computed
  rcases computed with ⟨⟨⟨⟨noLists, noLoops⟩, noRecursion⟩, three⟩, gives⟩
  rcases (Program.run_terminates accepted noLists noLoops noRecursion (.empty none)).1 with
    ⟨result, after, _, same⟩
  rw [three] at same
  rw [same 4 (by omega)] at gives
  cases eq_ok_of_toOption gives
  exact ⟨program, annotations, accepted, three, after, same⟩

end Plc
