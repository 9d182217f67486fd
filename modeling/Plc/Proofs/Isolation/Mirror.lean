import Plc.Proofs.Isolation.Alike

/-! Two runs of one call. In machines that are alike, the same call gives the same result and
leaves them alike, whatever the scopes it is called from. -/

namespace Plc

open Machine

/-! ## Two runs -/

/-- The runs give the same value or stop for the same reason, and leave machines alike. -/
structure Run.Agree (leftBase rightBase : Nat) (left right : Except Stop α × Machine) : Prop where
  result : left.1 = right.1
  alike : Alike leftBase rightBase left.2 right.2

/-- In machines that are alike, from scopes that are counterparts, the action runs in the same
way, to scopes that are counterparts. -/
def Run.Mirrors (leftBase rightBase : Nat) (action : Run α) : Prop :=
  ∀ left right, Alike leftBase rightBase left right →
    Counterpart leftBase rightBase left.current right.current →
    Run.Agree leftBase rightBase (action.run left) (action.run right) ∧
      Counterpart leftBase rightBase (action.run left).2.current (action.run right).2.current

/-- What can be called from the outermost scope runs in the same way. -/
def Invoke.Mirrors (leftBase rightBase : Nat) (invoke : Invoke) : Prop :=
  ∀ function arguments, function.IsGlobal →
    (invoke function arguments).Mirrors leftBase rightBase

namespace Run

section

variable {leftBase rightBase : Nat} {left right : Machine}

theorem Agree.bind {action other : Run α} {next following : α → Run β}
    (first : Agree leftBase rightBase (action.run left) (other.run right))
    (rest : ∀ value leftAfter rightAfter, action.run left = (.ok value, leftAfter) →
      other.run right = (.ok value, rightAfter) →
      Alike leftBase rightBase leftAfter rightAfter →
      Agree leftBase rightBase ((next value).run leftAfter)
        ((following value).run rightAfter)) :
    Agree leftBase rightBase ((action >>= next).run left) ((other >>= following).run right) := by
  rw [run_bind, run_bind]
  cases ran : action.run left with
  | mk result leftAfter =>
      cases ranOther : other.run right with
      | mk otherResult rightAfter =>
          rw [ran, ranOther] at first
          cases first.result
          cases result with
          | error stop => exact ⟨rfl, first.alike⟩
          | ok value => exact rest value leftAfter rightAfter ran ranOther first.alike

theorem Mirrors.bind {action : Run α} {next : α → Run β}
    (first : Mirrors leftBase rightBase action)
    (second : ∀ value, Mirrors leftBase rightBase (next value)) :
    Mirrors leftBase rightBase (action >>= next) := by
  intro left right alike counterpart
  have start := first left right alike counterpart
  rw [run_bind, run_bind]
  cases ran : action.run left with
  | mk result leftAfter =>
      cases ranOther : action.run right with
      | mk otherResult rightAfter =>
          rw [ran, ranOther] at start
          cases start.1.result
          cases result with
          | error stop => exact ⟨⟨rfl, start.1.alike⟩, start.2⟩
          | ok value => exact second value leftAfter rightAfter start.1.alike start.2

end

/-! ## Actions on the memory -/

/-- What the action does depends on the memory alone, and it changes nothing else. -/
def OnlyMemory (action : Run α) : Prop :=
  ∃ effect : Memory → Except Stop α × Memory, ∀ machine, action.run machine =
    ((effect machine.memory).1, { machine with memory := (effect machine.memory).2 })

namespace OnlyMemory

theorem pure (value : α) : OnlyMemory (pure value) :=
  ⟨fun memory => (.ok value, memory), fun _ => rfl⟩

theorem throw (stop : Stop) : OnlyMemory (throw stop : Run α) :=
  ⟨fun memory => (.error stop, memory), fun _ => rfl⟩

theorem check (result : Except RuntimeError α) : OnlyMemory (check result) := by
  cases result with
  | ok value => exact .pure value
  | error error => exact .throw (.fault error)

theorem onMemory (action : ExceptT Stop (StateM Memory) α) : OnlyMemory (onMemory action) :=
  ⟨action.run, fun _ => rfl⟩

theorem operate (operator : Operator) (left right : Value) :
    OnlyMemory (operate operator left right) :=
  ⟨fun memory => (left.operate memory.lists operator right, memory), fun _ => rfl⟩

theorem equal (left right : Value) : OnlyMemory (equal left right) :=
  ⟨fun memory => (Value.finished (Value.equal? memory.lists left right), memory), fun _ => rfl⟩

theorem modify (change : Memory → Memory) : OnlyMemory
    (modify fun machine => { machine with memory := change machine.memory } : Run Unit) :=
  ⟨fun memory => (.ok (), change memory), fun _ => rfl⟩

theorem bind {action : Run α} {next : α → Run β} (first : OnlyMemory action)
    (second : ∀ value, OnlyMemory (next value)) : OnlyMemory (action >>= next) := by
  rcases first with ⟨effect, ran⟩
  choose following ranNext using second
  refine ⟨fun memory => match effect memory with
    | (.ok value, after) => following value after
    | (.error stop, after) => (.error stop, after), ?_⟩
  intro machine
  rw [run_bind, ran]
  dsimp only
  rcases effect machine.memory with ⟨result, after⟩
  cases result with
  | error stop => rfl
  | ok value => exact ranNext value { machine with memory := after }

theorem get_bind {next : Memory → Run α} (each : ∀ memory, OnlyMemory (next memory)) :
    OnlyMemory (get >>= fun machine : Machine => next machine.memory) := by
  choose effect ran using each
  refine ⟨fun memory => effect memory memory, ?_⟩
  intro machine
  rw [run_bind, run_get]
  exact ran machine.memory machine

theorem locate (container offset : Value) : OnlyMemory (locate container offset) :=
  (check _).bind fun id => (check _).bind fun offset =>
    get_bind fun memory => (check (checkedIndex offset (memory.lists.elements id).length)).bind
      fun index => pure (id, index)

theorem readElement (container offset : Value) : OnlyMemory (readElement container offset) :=
  (locate _ _).bind fun located =>
    get_bind fun memory => pure ((memory.lists.elements located.1)[located.2]?.getD .nil)

theorem writeElement (container offset value : Value) :
    OnlyMemory (writeElement container offset value) :=
  (locate _ _).bind fun located => modify fun memory => memory.setElement located.1 located.2 value

variable {leftBase rightBase : Nat} {action : Run α}

theorem agree (only : OnlyMemory action) {left right : Machine}
    (alike : Alike leftBase rightBase left right) :
    Agree leftBase rightBase (action.run left) (action.run right) := by
  rcases only with ⟨effect, ran⟩
  rw [ran, ran, alike.memory]
  exact ⟨rfl, alike.withMemory _⟩

theorem mirrors (only : OnlyMemory action) : Mirrors leftBase rightBase action := by
  intro left right alike counterpart
  refine ⟨only.agree alike, ?_⟩
  rcases only with ⟨effect, ran⟩
  rw [ran, ran]
  exact counterpart

end OnlyMemory

/-! ## Actions on scopes and cells -/

theorem define_agree {leftBase rightBase : Nat} {left right : Machine} {place other : Nat}
    (alike : Alike leftBase rightBase left right)
    (counterpart : Counterpart leftBase rightBase place other) (name : String)
    (isMutable : Bool) (value : Value) :
    Agree leftBase rightBase ((Run.define place name isMutable value).run left)
      ((Run.define other name isMutable value).run right) := by
  have defined := alike.defineVariable counterpart name .any isMutable value
  constructor
  · simp only [Run.define, ExceptT.run, ExceptT.mk, defined.1]
  · exact defined.2

theorem call_run (invoke : Invoke) (name : String) (arguments : List Value) (machine : Machine) :
    (do
      let function ← Run.findFunction (← Run.currentScope) name arguments.length
      invoke function arguments : Run Value).run machine =
      match machine.scopes.lookupFunction machine.current name arguments.length with
      | some function => (invoke function arguments).run machine
      | none => (.error (.fault (.undefinedFunction name arguments.length)), machine) := by
  have here : (do
      let function ← Run.findFunction (← Run.currentScope) name arguments.length
      invoke function arguments : Run Value).run machine =
      (Run.findFunction machine.current name arguments.length >>= fun function =>
        invoke function arguments).run machine := rfl
  rw [here, run_bind]
  simp only [Run.findFunction, ExceptT.run, ExceptT.mk]
  cases machine.scopes.lookupFunction machine.current name arguments.length <;> rfl

namespace Mirrors

variable {leftBase rightBase : Nat}

theorem findVariable (name : String) : Mirrors leftBase rightBase (findVariable name) := by
  intro left right alike counterpart
  have same := alike.lookup_eq counterpart name
  simp only [Run.findVariable, ExceptT.run, ExceptT.mk, same]
  cases right.scopes.lookup right.current name with
  | none => exact ⟨⟨rfl, alike⟩, counterpart⟩
  | some found => exact ⟨⟨rfl, alike⟩, counterpart⟩

theorem readCell (number : Nat) : Mirrors leftBase rightBase (readCell number) := by
  intro left right alike counterpart
  have same : (Except.ok (left.cell number) : Except Stop Value) = .ok (right.cell number) := by
    rw [alike.cell_eq]
  exact ⟨⟨same, alike⟩, counterpart⟩

theorem writeCell (number : Nat) (value : Value) :
    Mirrors leftBase rightBase (writeCell number value) :=
  fun _ _ alike counterpart => ⟨⟨rfl, alike.setCell number value⟩, counterpart⟩

theorem mutableVariable (name : String) :
    Mirrors leftBase rightBase (Expr.assign.mutableVariable name) := by
  apply (findVariable name).bind
  intro target
  split
  · exact (OnlyMemory.pure _).mirrors
  · exact (OnlyMemory.throw _).mirrors

theorem call {invoke : Invoke} (calls : Invoke.Mirrors leftBase rightBase invoke)
    (name : String) (arguments : List Value) :
    Mirrors leftBase rightBase (do
      let function ← Run.findFunction (← Run.currentScope) name arguments.length
      invoke function arguments) := by
  intro left right alike counterpart
  rw [call_run, call_run, ← alike.lookupFunction_eq counterpart]
  cases found : left.scopes.lookupFunction left.current name arguments.length with
  | none => exact ⟨⟨rfl, alike⟩, counterpart⟩
  | some function =>
      rcases Scope.Tree.exists_of_lookupFunction found with ⟨place, _, known⟩
      exact calls function arguments (alike.functions place name _ function known) left right
        alike counterpart

theorem define_current (name : String) (isMutable : Bool) (value : Value) :
    Mirrors leftBase rightBase (do Run.define (← Run.currentScope) name isMutable value) := by
  intro left right alike counterpart
  have leftCurrent := (Framed.defineVariable left left.current name .any isMutable value).current
  have rightCurrent :=
    (Framed.defineVariable right right.current name .any isMutable value).current
  refine ⟨define_agree alike counterpart name isMutable value, ?_⟩
  have kept : Counterpart leftBase rightBase
      (left.defineVariable left.current name .any isMutable value).2.current
      (right.defineVariable right.current name .any isMutable value).2.current := by
    rw [leftCurrent, rightCurrent]
    exact counterpart
  exact kept

theorem inChild {action : Run α} (mirrors : Mirrors leftBase rightBase action) :
    Mirrors leftBase rightBase (inChild action) := by
  intro left right alike counterpart
  have entered := alike.child counterpart
  have ran := mirrors { (left.child left.current).2 with current := (left.child left.current).1 }
    { (right.child right.current).2 with current := (right.child right.current).1 }
    (entered.1.atScopes _ _) entered.2
  exact ⟨⟨ran.1.result, ran.1.alike.atScopes left.current right.current⟩, counterpart⟩

theorem repeatWhile {test : Run Bool} {body : Run Flow} (tests : Mirrors leftBase rightBase test)
    (bodies : Mirrors leftBase rightBase body) (rounds : Nat) :
    Mirrors leftBase rightBase (repeatWhile test body rounds) := by
  induction rounds with
  | zero => exact (OnlyMemory.throw _).mirrors
  | succ rounds induction =>
      apply tests.bind
      intro again
      cases again with
      | false => exact (OnlyMemory.pure _).mirrors
      | true =>
          apply bodies.bind
          intro flow
          cases flow with
          | normal => exact induction
          | returned value => exact (OnlyMemory.pure _).mirrors

end Mirrors

theorem defineAll_agree {leftBase rightBase : Nat} {left right : Machine} {place other : Nat}
    (alike : Alike leftBase rightBase left right)
    (counterpart : Counterpart leftBase rightBase place other)
    (bindings : List (String × Value)) :
    Agree leftBase rightBase ((Run.defineAll place bindings).run left)
      ((Run.defineAll other bindings).run right) := by
  induction bindings generalizing left right with
  | nil => exact ⟨rfl, alike⟩
  | cons head tail induction =>
      rcases head with ⟨name, value⟩
      apply (define_agree alike counterpart name true value).bind
      intro _ leftAfter rightAfter _ _ alikeAfter
      exact induction alikeAfter

end Run

/-! ## Expressions and statements -/

section

variable {leftBase rightBase : Nat} {invoke : Invoke}

mutual

theorem Expr.evaluate_mirrors (calls : Invoke.Mirrors leftBase rightBase invoke) :
    ∀ expression : Expr, (expression.evaluate invoke).Mirrors leftBase rightBase
  | .literal _ _ => (Run.OnlyMemory.pure _).mirrors
  | .group _ inner => inner.evaluate_mirrors calls
  | .binary _ operator left right =>
      (left.evaluate_mirrors calls).bind fun leftValue =>
        (right.evaluate_mirrors calls).bind fun rightValue =>
          (Run.OnlyMemory.operate operator leftValue rightValue).mirrors
  | .access _ name => (Run.Mirrors.findVariable name).bind fun found => .readCell found.cell
  | .element _ name index =>
      (index.evaluate_mirrors calls).bind fun offset =>
        (Run.Mirrors.findVariable name).bind fun found =>
          (Run.Mirrors.readCell found.cell).bind fun container =>
            (Run.OnlyMemory.readElement container offset).mirrors
  | .call _ name arguments =>
      (Expr.evaluateAll_mirrors calls arguments).bind fun values => .call calls name values
  | .list _ elements =>
      (Expr.evaluateAll_mirrors calls elements).bind fun values =>
        (Run.OnlyMemory.onMemory (Native.newList values)).mirrors

theorem Expr.evaluateAll_mirrors (calls : Invoke.Mirrors leftBase rightBase invoke) :
    ∀ expressions : List Expr, (Expr.evaluateAll invoke expressions).Mirrors leftBase rightBase
  | [] => (Run.OnlyMemory.pure _).mirrors
  | head :: tail =>
      (head.evaluate_mirrors calls).bind fun _ =>
        (Expr.evaluateAll_mirrors calls tail).bind fun _ => (Run.OnlyMemory.pure _).mirrors

end

theorem Expr.evaluateInitial_mirrors (calls : Invoke.Mirrors leftBase rightBase invoke)
    (value : Option Expr) : (Expr.evaluateInitial invoke value).Mirrors leftBase rightBase := by
  cases value with
  | some value => exact value.evaluate_mirrors calls
  | none => exact (Run.OnlyMemory.pure _).mirrors

theorem Expr.assign_mirrors (calls : Invoke.Mirrors leftBase rightBase invoke)
    (receiver value : Expr) : (receiver.assign invoke value).Mirrors leftBase rightBase := by
  unfold Expr.assign
  split
  · exact (Run.Mirrors.mutableVariable _).bind fun target =>
      (value.evaluate_mirrors calls).bind fun written => .writeCell target.cell written
  · rename_i index
    exact (Run.Mirrors.mutableVariable _).bind fun target =>
      (index.evaluate_mirrors calls).bind fun offset =>
        (value.evaluate_mirrors calls).bind fun written =>
          (Run.Mirrors.readCell target.cell).bind fun container =>
            (Run.OnlyMemory.writeElement container offset written).mirrors
  · exact (Run.OnlyMemory.throw _).mirrors

mutual

theorem Stmt.execute_mirrors (calls : Invoke.Mirrors leftBase rightBase invoke)
    (rounds : Nat) :
    ∀ statement : Stmt, (statement.execute invoke rounds).Mirrors leftBase rightBase
  | .expression value =>
      (value.evaluate_mirrors calls).bind fun _ => (Run.OnlyMemory.pure _).mirrors
  | .declaration _ name _ value => by
      apply (Expr.evaluateInitial_mirrors calls value).bind
      intro initial
      have finished : (pure Flow.normal : Run Flow).Mirrors leftBase rightBase :=
        (Run.OnlyMemory.pure _).mirrors
      exact (Run.Mirrors.define_current name true initial).bind fun _ => finished
  | .assignment receiver value =>
      (receiver.assign_mirrors calls value).bind fun _ => (Run.OnlyMemory.pure _).mirrors
  | .conditional condition whenTrue whenFalse => by
      refine (condition.evaluate_mirrors calls).bind fun value =>
        (Run.OnlyMemory.check value.asBoolean).mirrors.bind fun holds => ?_
      cases holds with
      | true => exact (Stmt.executeAll_mirrors calls rounds whenTrue).inChild
      | false => exact (Stmt.executeAll_mirrors calls rounds whenFalse).inChild
  | .switch condition cases =>
      (condition.evaluate_mirrors calls).bind fun value =>
        Case.executeAll_mirrors calls rounds value cases
  | .loop condition body =>
      .repeatWhile
        ((condition.evaluate_mirrors calls).bind fun value =>
          (Run.OnlyMemory.check value.asBoolean).mirrors)
        (Stmt.executeAll_mirrors calls rounds body).inChild rounds
  | .returns value =>
      (value.evaluate_mirrors calls).bind fun _ => (Run.OnlyMemory.pure _).mirrors

theorem Stmt.executeAll_mirrors (calls : Invoke.Mirrors leftBase rightBase invoke)
    (rounds : Nat) :
    ∀ statements : List Stmt,
      (Stmt.executeAll invoke rounds statements).Mirrors leftBase rightBase
  | [] => (Run.OnlyMemory.pure _).mirrors
  | head :: tail => by
      apply (head.execute_mirrors calls rounds).bind
      intro flow
      cases flow with
      | normal => exact Stmt.executeAll_mirrors calls rounds tail
      | returned value => exact (Run.OnlyMemory.pure _).mirrors

theorem Case.executeAll_mirrors (calls : Invoke.Mirrors leftBase rightBase invoke)
    (rounds : Nat) (value : Value) :
    ∀ cases : List Case,
      (Case.executeAll invoke rounds value cases).Mirrors leftBase rightBase
  | [] => (Run.OnlyMemory.pure _).mirrors
  | .mk none body :: _ => (Stmt.executeAll_mirrors calls rounds body).inChild
  | .mk (some test) body :: tail => by
      refine (test.evaluate_mirrors calls).bind fun tested =>
        (Run.OnlyMemory.equal tested value).mirrors.bind fun same => ?_
      cases same with
      | true => exact (Stmt.executeAll_mirrors calls rounds body).inChild
      | false => exact Case.executeAll_mirrors calls rounds value tail

end

/-! ## Calls -/

/-- A call runs in the same way in machines that are alike, from whatever scopes. -/
theorem Machine.invoke_agree {left right : Machine} (bound : Nat) {function : Machine.Function}
    (isGlobal : function.IsGlobal) (arguments : List Value)
    (alike : Alike leftBase rightBase left right) :
    Run.Agree leftBase rightBase ((Machine.invoke bound function arguments).run left)
      ((Machine.invoke bound function arguments).run right) := by
  induction bound generalizing left right function arguments with
  | zero => exact (Run.OnlyMemory.throw _).agree alike
  | succ bound induction =>
      -- inside the body, calls are made from counterparts and come back to them
      have calls : Invoke.Mirrors leftBase rightBase (Machine.invoke bound) := by
        intro called given calledGlobal left right alike counterpart
        refine ⟨induction calledGlobal given alike, ?_⟩
        have leftStays := (Machine.invoke_declares bound called given left).current
        have rightStays := (Machine.invoke_declares bound called given right).current
        rw [leftStays, rightStays]
        exact counterpart
      cases callable : function.callable with
      | native behaviour =>
          simp only [Machine.invoke, callable]
          exact (Run.OnlyMemory.onMemory (behaviour arguments)).agree alike
      | signature =>
          simp only [Machine.invoke, callable]
          exact (Run.OnlyMemory.throw _).agree alike
      | declared parameters body closure =>
          cases isGlobal parameters body closure callable
          rcases alike.places with ⟨made, leftSize, rightSize⟩
          have leftPresent : Machine.global < left.scopes.places.size := by
            rw [leftSize]
            exact Nat.lt_of_lt_of_le alike.leftPositive (Nat.le_add_right _ _)
          have rightPresent : Machine.global < right.scopes.places.size := by
            rw [rightSize]
            exact Nat.lt_of_lt_of_le alike.rightPositive (Nat.le_add_right _ _)
          rw [Moment.invoke_declared_run bound left callable leftPresent,
            Moment.invoke_declared_run bound right callable rightPresent]
          have entered := alike.child .global
          apply (Run.defineAll_agree entered.1 entered.2 (parameters.zip arguments)).bind
          intro _ leftReady rightReady _ _ ready
          have ran := Stmt.executeAll_mirrors calls bound body
            { leftReady with current := (left.child Machine.global).1 }
            { rightReady with current := (right.child Machine.global).1 }
            (ready.atScopes _ _) entered.2
          have executed : Run.Agree leftBase rightBase
              ((Run.inScope (left.child Machine.global).1
                (Stmt.executeAll (Machine.invoke bound) bound body)).run leftReady)
              ((Run.inScope (right.child Machine.global).1
                (Stmt.executeAll (Machine.invoke bound) bound body)).run rightReady) :=
            ⟨ran.1.result, ran.1.alike.atScopes _ _⟩
          apply executed.bind
          intro flow leftAfter rightAfter _ _ alikeAfter
          cases flow with
          | normal => exact ⟨rfl, alikeAfter⟩
          | returned value => exact ⟨rfl, alikeAfter⟩

end

end Plc
