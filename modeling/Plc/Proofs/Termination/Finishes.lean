import Plc.Proofs.Soundness.Fragment
import Plc.Proofs.Soundness.Hosts
import Plc.Proofs.Typing.Calls
import Plc.Proofs.Value.Scalar

/-! Runs that finish. Without lists, printing and comparing values always come to an end, so a
run can only go on for ever by a loop or by calls. Where neither a loop nor a list is in sight
and every call that is made finishes, all finishes. -/

namespace Plc

/-! ## Machines without lists -/

namespace Machine

/-- From the current scope and from the outermost one, functions are found in `table`. -/
structure Sees (table : String → Nat → Option Function) (machine : Machine) : Prop where
  around : ∀ place ∈ machine.scopes.path machine.current, place < machine.scopes.places.size
  present : global < machine.scopes.places.size
  root : machine.scopes.outer global = []
  here : ∀ name arity,
    machine.scopes.lookupFunction machine.current name arity = table name arity
  outermost : ∀ name arity,
    (machine.scopes.scope global).lookupFunction name arity = table name arity

/-- The machine sees the functions, and no variable holds a list. -/
structure Ready (table : String → Nat → Option Function) (machine : Machine) : Prop where
  sees : machine.Sees table
  scalars : ∀ value ∈ machine.cells, value.IsScalar

variable {table : String → Nat → Option Function} {machine before after : Machine}

theorem Sees.framed {gains : Nat → String → Prop} (sees : before.Sees table)
    (framed : before.Framed gains after) : after.Sees table := by
  have path : after.scopes.path after.current = before.scopes.path before.current := by
    rw [Scope.Tree.path, framed.current,
      framed.outer _ (sees.around before.current List.mem_cons_self)]
    rfl
  constructor
  · intro place member
    rw [path] at member
    exact Nat.lt_of_lt_of_le (sees.around place member) framed.places
  · exact Nat.lt_of_lt_of_le sees.present framed.places
  · rw [framed.outer global sees.present]
    exact sees.root
  · intro name arity
    rw [← sees.here, framed.current]
    apply Scope.Tree.lookupFunction_congr
    · rw [← path, framed.current]
    · intro place member
      exact framed.functions place (sees.around place member) name arity
  · intro name arity
    rw [framed.functions global sees.present]
    exact sees.outermost name arity

theorem Sees.child (sees : machine.Sees table) {position : Nat}
    (inside : position = machine.current ∨ position = global) :
    Sees table { (machine.child position).2 with current := machine.scopes.places.size } := by
  have framed : machine.Framed (fun _ _ => False) (machine.child position).2 :=
    .child machine position
  have chain : ∀ place ∈ machine.scopes.path position,
      place < machine.scopes.places.size := by
    rcases inside with rfl | rfl
    · exact sees.around
    · intro place member
      rw [Scope.Tree.path, sees.root] at member
      rw [List.mem_singleton.mp member]
      exact sees.present
  have known : ∀ name arity,
      machine.scopes.lookupFunction position name arity = table name arity := by
    rcases inside with rfl | rfl
    · exact sees.here
    · intro name arity
      rw [Scope.Tree.lookupFunction_eq, sees.root, sees.outermost]
      exact Option.or_none
  have outer := sees.framed framed
  constructor
  · intro place member
    have grown : (machine.child position).2.scopes.places.size =
        machine.scopes.places.size + 1 := machine.scopes.size_child position
    rw [Machine.child, Scope.Tree.path_child] at member
    apply Nat.lt_of_lt_of_eq _ grown.symm
    rcases List.mem_cons.mp member with rfl | member
    · omega
    · have old := chain place member
      omega
  · exact outer.present
  · exact outer.root
  · intro name arity
    rw [← known]
    exact machine.scopes.lookupFunction_child position name arity
  · exact outer.outermost

theorem Ready.framed {gains : Nat → String → Prop} (ready : before.Ready table)
    (framed : before.Framed gains after)
    (scalars : ∀ value ∈ after.cells, value.IsScalar) : after.Ready table :=
  ⟨ready.sees.framed framed, scalars⟩

theorem Ready.cell (ready : machine.Ready table) (number : Nat) :
    (machine.cell number).IsScalar := by
  rw [Machine.cell]
  split
  · rename_i value found
    exact ready.scalars value (Array.mem_of_getElem? found)
  · exact Value.isScalar_nil

theorem Ready.setCell (ready : machine.Ready table) (number : Nat) {value : Value}
    (scalar : value.IsScalar) : (machine.setCell number value).Ready table := by
  have framed : machine.Framed (fun _ _ => False) (machine.setCell number value) :=
    .of_scopes_eq rfl rfl (by simp [Machine.setCell])
  apply ready.framed framed
  intro other member
  rcases Array.mem_or_eq_of_mem_setIfInBounds member with old | rfl
  · exact ready.scalars other old
  · exact scalar

theorem Ready.defineVariable (ready : machine.Ready table) (position : Nat) (name : String)
    (type : Ty) (isMutable : Bool) {value : Value} (scalar : value.IsScalar) :
    (machine.defineVariable position name type isMutable value).2.Ready table := by
  apply ready.framed (.defineVariable machine position name type isMutable value)
  intro other member
  rcases machine.defineVariable_cases position name type isMutable value with
    ⟨_, same⟩ | ⟨_, extended, _, same⟩
  · rw [same] at member
    exact ready.scalars other member
  · rw [same] at member
    rcases Array.mem_push.mp member with old | rfl
    · exact ready.scalars other old
    · exact scalar

end Machine

/-! ## Actions that finish -/

/-- From every machine that is ready, the action gives a good value or fails, and leaves the
machine ready. -/
def Run.Finishes (table : String → Nat → Option Machine.Function) (good : α → Prop)
    (action : Run α) : Prop :=
  ∀ machine : Machine, machine.Ready table →
    action.Ensures machine (fun value after => good value ∧ after.Ready table)
      (fun stop _ => stop ≠ .unfinished)

namespace Run.Finishes

variable {table : String → Nat → Option Machine.Function} {good : α → Prop} {fine : β → Prop}
  {action : Run α}

theorem bind {next : α → Run β} (first : action.Finishes table good)
    (rest : ∀ value, good value → (next value).Finishes table fine) :
    (action >>= next).Finishes table fine := by
  intro machine ready
  apply (first machine ready).bind
  intro value after _ holds
  exact rest value holds.1 after holds.2

theorem pure {value : α} (holds : good value) : (pure value : Run α).Finishes table good :=
  fun _ ready => Run.ensures_pure ⟨holds, ready⟩

theorem fault (error : RuntimeError) : (fault error : Run α).Finishes table good :=
  fun _ _ => Run.ensures_fault (Stop.fault_ne_unfinished error)

theorem check {result : Except RuntimeError α} (holds : ∀ value, result = .ok value → good value) :
    (check result).Finishes table good :=
  fun _ ready => Run.ensures_check (fun value given => ⟨holds value given, ready⟩)
    fun error _ => Stop.fault_ne_unfinished error

theorem of_result {result : Machine → Except Stop α}
    (value : ∀ machine : Machine, machine.Ready table → ∀ given, result machine = .ok given →
      good given)
    (stop : ∀ machine : Machine, machine.Ready table → result machine ≠ .error .unfinished) :
    Finishes table good (ExceptT.mk fun machine => (result machine, machine)) := by
  intro machine ready
  apply Ensures.intro
  · intro given after ran
    have parts := Prod.mk.inj ran
    rw [← parts.2]
    exact ⟨value machine ready given parts.1, ready⟩
  · intro reason after ran unfinished
    exact stop machine ready (unfinished ▸ (Prod.mk.inj ran).1)

theorem findVariable (name : String) :
    (findVariable name).Finishes table fun _ => True := by
  intro machine ready
  unfold Ensures
  cases known : machine.scopes.lookup machine.current name with
  | some found =>
      have ran : (Run.findVariable name).run machine = (.ok found, machine) := by
        simp only [Run.findVariable, ExceptT.run, ExceptT.mk, known]
      rw [ran]
      exact ⟨trivial, ready⟩
  | none =>
      have ran : (Run.findVariable name).run machine =
          (.error (.fault (.undefinedVariable name)), machine) := by
        simp only [Run.findVariable, ExceptT.run, ExceptT.mk, known]
      rw [ran]
      exact Stop.fault_ne_unfinished _

theorem readCell (number : Nat) : (readCell number).Finishes table Value.IsScalar :=
  fun _ ready => ⟨ready.cell number, ready⟩

theorem writeCell (number : Nat) {value : Value} (scalar : value.IsScalar) :
    (writeCell number value).Finishes table fun _ => True :=
  fun _ ready => ⟨trivial, ready.setCell number scalar⟩

theorem locate {container : Value} (scalar : container.IsScalar) (offset : Value) :
    (locate container offset).Finishes table fun _ => False := by
  have refused : (Run.check container.asList).Finishes table fun _ => False := by
    apply check
    intro id given
    cases container with
    | list id => exact scalar rfl
    | _ => cases given
  exact refused.bind fun _ => False.elim

theorem operate (operator : Operator) {left right : Value} (leftScalar : left.IsScalar)
    (rightScalar : right.IsScalar) :
    (operate operator left right).Finishes table Value.IsScalar :=
  of_result (fun _ _ _ given => (Value.combines_of_operate given).isScalar)
    fun machine _ => leftScalar.operate rightScalar machine.memory.lists operator

theorem equal {left : Value} (scalar : left.IsScalar) (right : Value) :
    (equal left right).Finishes table fun _ => True := by
  apply of_result (fun _ _ _ _ => trivial)
  intro machine _
  rcases scalar.equal? machine.memory.lists right with ⟨same, compared⟩
  rw [compared]
  intro unfinished
  cases unfinished

theorem define (position : Nat) (name : String) (isMutable : Bool) {value : Value}
    (scalar : value.IsScalar) :
    (define position name isMutable value).Finishes table fun _ => True := by
  intro machine ready
  have opened : (Run.define position name isMutable value).run machine =
      (if (machine.defineVariable position name .any isMutable value).1 then .ok ()
        else .error (.fault (.redefinition name)),
      (machine.defineVariable position name .any isMutable value).2) := rfl
  have after := ready.defineVariable position name .any isMutable scalar
  unfold Ensures
  rw [opened]
  split
  · rename_i ran
    have parts := Prod.mk.inj ran
    rw [← parts.2]
    exact ⟨trivial, after⟩
  · rename_i ran
    have parts := Prod.mk.inj ran
    split at parts
    · cases parts.1
    · cases parts.1
      exact Stop.fault_ne_unfinished _

theorem defineAll (position : Nat) (bindings : List (String × Value))
    (scalars : ∀ binding ∈ bindings, binding.2.IsScalar) :
    (defineAll position bindings).Finishes table fun _ => True := by
  induction bindings with
  | nil => exact pure trivial
  | cons head tail induction =>
      rcases List.forall_mem_cons.mp scalars with ⟨scalar, scalars⟩
      exact (define position head.1 true scalar).bind fun _ _ => induction scalars

theorem inChild {names : List String} (finishes : action.Finishes table good)
    (declares : action.Declares names) : (inChild action).Finishes table good := by
  intro machine ready
  have framed := declares.inChild machine
  have inside := finishes _ ⟨ready.sees.child (.inl rfl), ready.scalars⟩
  have entered : (Run.inChild action).Ensures machine
      (fun value after => good value ∧ ∀ value ∈ after.cells, value.IsScalar)
      (fun stop _ => stop ≠ .unfinished) := by
    apply ensures_inChild
    apply ensures_inScope
    apply inside.mono
    · intro value after _ holds
      exact ⟨holds.1, holds.2.scalars⟩
    · exact fun _ _ finished => finished
  apply entered.mono
  · intro value after ran holds
    rw [ran] at framed
    exact ⟨holds.1, ready.framed framed holds.2⟩
  · exact fun _ _ finished => finished

end Run.Finishes

/-! ## Expressions -/

/-- Calls of allowed functions, with values that are no lists, finish. -/
def Invoke.Finishes (table : String → Nat → Option Machine.Function)
    (allowed : String → Nat → Prop) (invoke : Invoke) : Prop :=
  ∀ name function (arguments : List Value), allowed name arguments.length →
    table name arguments.length = some function →
    (∀ value ∈ arguments, value.IsScalar) →
      (invoke function arguments).Finishes table Value.IsScalar

section

variable {table : String → Nat → Option Machine.Function} {allowed : String → Nat → Prop}
  {invoke : Invoke}

theorem Run.findFunction_ensures {machine : Machine} {position : Nat}
    (sees : ∀ name arity,
      machine.scopes.lookupFunction position name arity = table name arity)
    (name : String) (arity : Nat) :
    (Run.findFunction position name arity).Ensures machine
      (fun function after => table name arity = some function ∧ after = machine)
      (fun stop _ => stop ≠ .unfinished) := by
  unfold Run.Ensures
  cases known : table name arity with
  | none =>
      have ran : (Run.findFunction position name arity).run machine =
          (.error (.fault (.undefinedFunction name arity)), machine) := by
        simp only [Run.findFunction, ExceptT.run, ExceptT.mk, sees, known]
      rw [ran]
      exact Stop.fault_ne_unfinished _
  | some function =>
      have ran : (Run.findFunction position name arity).run machine =
          (.ok function, machine) := by
        simp only [Run.findFunction, ExceptT.run, ExceptT.mk, sees, known]
      rw [ran]
      exact ⟨rfl, rfl⟩

theorem Invoke.Finishes.call (calls : invoke.Finishes table allowed) {name : String}
    {arguments : List Value} (permitted : allowed name arguments.length)
    (scalars : ∀ value ∈ arguments, value.IsScalar) :
    Run.Finishes table Value.IsScalar (do
      let function ← Run.findFunction (← Run.currentScope) name arguments.length
      invoke function arguments) := by
  intro machine ready
  have found := Run.findFunction_ensures ready.sees.here name arguments.length
  apply found.bind
  rintro function _ _ ⟨known, rfl⟩
  exact calls name function arguments permitted known scalars _ ready

mutual

theorem Expr.evaluate_finishes (calls : invoke.Finishes table allowed) (expression : Expr)
    (permitted : ∀ term ∈ expression.subterms, term.Permitted allowed) :
    (expression.evaluate invoke).Finishes table Value.IsScalar := by
  cases expression with
  | literal node value =>
      apply Run.Finishes.pure
      intro isList
      cases value <;> cases isList
  | group node inner =>
      exact inner.evaluate_finishes calls (List.forall_mem_cons.mp permitted).2
  | binary node operator left right =>
      rcases List.forall_mem_append.mp (List.forall_mem_cons.mp permitted).2 with
        ⟨leftPermitted, rightPermitted⟩
      apply (left.evaluate_finishes calls leftPermitted).bind
      intro leftValue leftScalar
      apply (right.evaluate_finishes calls rightPermitted).bind
      intro rightValue rightScalar
      exact .operate operator leftScalar rightScalar
  | access node name =>
      exact (Run.Finishes.findVariable name).bind fun found _ => .readCell found.cell
  | element node name index =>
      apply (index.evaluate_finishes calls (List.forall_mem_cons.mp permitted).2).bind
      intro offset _
      apply (Run.Finishes.findVariable name).bind
      intro found _
      apply (Run.Finishes.readCell found.cell).bind
      intro container scalar
      exact (Run.Finishes.locate scalar offset).bind fun _ => False.elim
  | call node name arguments =>
      rcases List.forall_mem_cons.mp permitted with ⟨allows, permitted⟩
      apply (Expr.evaluateAll_finishes calls arguments permitted).bind
      rintro values ⟨length, scalars⟩
      apply calls.call _ scalars
      rw [length]
      exact allows
  | list node elements => exact ((List.forall_mem_cons.mp permitted).1).elim

theorem Expr.evaluateAll_finishes (calls : invoke.Finishes table allowed)
    (expressions : List Expr)
    (permitted : ∀ term ∈ Expr.subtermsOfAll expressions, term.Permitted allowed) :
    (Expr.evaluateAll invoke expressions).Finishes table fun values =>
      values.length = expressions.length ∧ ∀ value ∈ values, value.IsScalar := by
  cases expressions with
  | nil => exact Run.Finishes.pure ⟨rfl, fun _ member => absurd member List.not_mem_nil⟩
  | cons head tail =>
      rcases List.forall_mem_append.mp permitted with ⟨headPermitted, tailPermitted⟩
      apply (head.evaluate_finishes calls headPermitted).bind
      intro value scalar
      apply (Expr.evaluateAll_finishes calls tail tailPermitted).bind
      rintro values ⟨length, scalars⟩
      exact .pure ⟨congrArg Nat.succ length, List.forall_mem_cons.mpr ⟨scalar, scalars⟩⟩

end

theorem Expr.evaluateInitial_finishes (calls : invoke.Finishes table allowed)
    (value : Option Expr)
    (permitted : ∀ term ∈ (value.map Expr.subterms).getD [], term.Permitted allowed) :
    (Expr.evaluateInitial invoke value).Finishes table Value.IsScalar := by
  cases value with
  | some value => exact value.evaluate_finishes calls permitted
  | none => exact Run.Finishes.pure Value.isScalar_nil

theorem Expr.assign_finishes (calls : invoke.Finishes table allowed) (receiver value : Expr)
    (receiverPermitted : ∀ term ∈ receiver.subterms, term.Permitted allowed)
    (valuePermitted : ∀ term ∈ value.subterms, term.Permitted allowed) :
    (receiver.assign invoke value).Finishes table fun _ => True := by
  have target : ∀ name, (Expr.assign.mutableVariable name).Finishes table fun _ => True := by
    intro name
    apply (Run.Finishes.findVariable name).bind
    intro found _
    split
    · exact .pure trivial
    · exact .fault _
  cases receiver with
  | access node name =>
      apply (target name).bind
      intro found _
      apply (value.evaluate_finishes calls valuePermitted).bind
      intro given scalar
      exact .writeCell found.cell scalar
  | element node name index =>
      apply (target name).bind
      intro found _
      apply (index.evaluate_finishes calls (List.forall_mem_cons.mp receiverPermitted).2).bind
      intro offset _
      apply (value.evaluate_finishes calls valuePermitted).bind
      intro given _
      apply (Run.Finishes.readCell found.cell).bind
      intro container scalar
      exact (Run.Finishes.locate scalar offset).bind fun _ => False.elim
  | _ => exact .fault _

/-! ## Statements -/

def Flow.IsScalar : Flow → Prop
  | .normal => True
  | .returned value => value.IsScalar

def Stmt.isLoop : Stmt → Bool
  | .loop _ _ => true
  | _ => false

mutual

theorem Stmt.execute_finishes
    (declares : ∀ function arguments, (invoke function arguments).Declares [])
    (calls : invoke.Finishes table allowed) (rounds : Nat) (statement : Stmt)
    (permitted : ∀ term ∈ statement.subterms, term.Permitted allowed)
    (loopless : ∀ inner ∈ statement.nested, inner.isLoop = false) :
    (statement.execute invoke rounds).Finishes table Flow.IsScalar := by
  have ended : (pure Flow.normal : Run Flow).Finishes table Flow.IsScalar := .pure trivial
  cases statement with
  | expression value =>
      exact (value.evaluate_finishes calls permitted).bind fun _ _ => ended
  | declaration id name typeName value =>
      apply (Expr.evaluateInitial_finishes calls value permitted).bind
      intro initial scalar machine ready
      have defined : (Run.define machine.current name true initial).Finishes table
          fun _ => True := .define machine.current name true scalar
      exact (defined.bind fun _ _ => ended) machine ready
  | assignment receiver value =>
      rcases List.forall_mem_append.mp permitted with ⟨receiverPermitted, valuePermitted⟩
      exact (receiver.assign_finishes calls value receiverPermitted valuePermitted).bind
        fun _ _ => ended
  | conditional condition whenTrue whenFalse =>
      rcases List.forall_mem_append.mp permitted with ⟨permitted, falsePermitted⟩
      rcases List.forall_mem_append.mp permitted with ⟨conditionPermitted, truePermitted⟩
      rcases List.forall_mem_append.mp (List.forall_mem_cons.mp loopless).2 with
        ⟨trueLoopless, falseLoopless⟩
      apply (condition.evaluate_finishes calls conditionPermitted).bind
      intro value _
      have tested : (Run.check value.asBoolean).Finishes table fun _ => True :=
        .check fun _ _ => trivial
      apply tested.bind
      intro holds _
      cases holds with
      | true =>
          exact (Stmt.executeAll_finishes declares calls rounds whenTrue truePermitted
            trueLoopless).inChild (Stmt.executeAll_declares declares rounds whenTrue)
      | false =>
          exact (Stmt.executeAll_finishes declares calls rounds whenFalse falsePermitted
            falseLoopless).inChild (Stmt.executeAll_declares declares rounds whenFalse)
  | switch condition cases =>
      rcases List.forall_mem_append.mp permitted with ⟨conditionPermitted, casesPermitted⟩
      apply (condition.evaluate_finishes calls conditionPermitted).bind
      intro value _
      exact Case.executeAll_finishes declares calls rounds value cases casesPermitted
        (List.forall_mem_cons.mp loopless).2
  | loop condition body => cases (List.forall_mem_cons.mp loopless).1
  | returns value =>
      exact (value.evaluate_finishes calls permitted).bind fun _ scalar => .pure scalar

theorem Stmt.executeAll_finishes
    (declares : ∀ function arguments, (invoke function arguments).Declares [])
    (calls : invoke.Finishes table allowed) (rounds : Nat)
    (statements : List Stmt)
    (permitted : ∀ term ∈ Stmt.subtermsOfAll statements, term.Permitted allowed)
    (loopless : ∀ inner ∈ Stmt.nestedInAll statements, inner.isLoop = false) :
    (Stmt.executeAll invoke rounds statements).Finishes table Flow.IsScalar := by
  cases statements with
  | nil => exact Run.Finishes.pure trivial
  | cons head tail =>
      rcases List.forall_mem_append.mp permitted with ⟨headPermitted, tailPermitted⟩
      rcases List.forall_mem_append.mp loopless with ⟨headLoopless, tailLoopless⟩
      apply (Stmt.execute_finishes declares calls rounds head headPermitted headLoopless).bind
      intro flow scalar
      cases flow with
      | normal =>
          exact Stmt.executeAll_finishes declares calls rounds tail tailPermitted tailLoopless
      | returned value => exact .pure scalar

theorem Case.executeAll_finishes
    (declares : ∀ function arguments, (invoke function arguments).Declares [])
    (calls : invoke.Finishes table allowed) (rounds : Nat)
    (value : Value) (cases : List Case)
    (permitted : ∀ term ∈ Case.subtermsOfAll cases, term.Permitted allowed)
    (loopless : ∀ inner ∈ Case.nestedInAll cases, inner.isLoop = false) :
    (Case.executeAll invoke rounds value cases).Finishes table Flow.IsScalar := by
  match cases with
  | [] => exact Run.Finishes.pure trivial
  | .mk test body :: tail =>
      rcases List.forall_mem_append.mp permitted with ⟨permitted, tailPermitted⟩
      rcases List.forall_mem_append.mp permitted with ⟨testPermitted, bodyPermitted⟩
      rcases List.forall_mem_append.mp loopless with ⟨bodyLoopless, tailLoopless⟩
      have taken := (Stmt.executeAll_finishes declares calls rounds body bodyPermitted
        bodyLoopless).inChild (Stmt.executeAll_declares declares rounds body)
      cases test with
      | none => exact taken
      | some test =>
          apply (test.evaluate_finishes calls testPermitted).bind
          intro tested scalar
          apply (Run.Finishes.equal scalar value).bind
          intro same _
          cases same with
          | true => exact taken
          | false =>
              exact Case.executeAll_finishes declares calls rounds value tail tailPermitted
                tailLoopless

end

end

end Plc
