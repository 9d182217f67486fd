import Plc.Proofs.Machine.Ensures
import Plc.Proofs.Scope.Tree

/-! What a run leaves alone. Whatever is executed, a scope that existed before
keeps its place, its functions and all its variables; new names appear only in
the current scope, and only those of the declarations executed there. -/

namespace Plc

/-! ## Frames between two machines -/

/-- `after` has all that `before` has. A variable that is new in a scope of
`before` is one that `gains` says. -/
structure Machine.Framed (gains : Nat → String → Prop) (before after : Machine) : Prop where
  current : after.current = before.current
  places : before.scopes.places.size ≤ after.scopes.places.size
  cells : before.cells.size ≤ after.cells.size
  outer : ∀ position < before.scopes.places.size,
    after.scopes.outer position = before.scopes.outer position
  unchanged : ∀ position < before.scopes.places.size, ∀ name, ¬gains position name →
    (after.scopes.scope position).lookup name = (before.scopes.scope position).lookup name
  persists : ∀ position < before.scopes.places.size, ∀ name found,
    (before.scopes.scope position).lookup name = some found →
      (after.scopes.scope position).lookup name = some found
  functions : ∀ position < before.scopes.places.size, ∀ name arity,
    (after.scopes.scope position).lookupFunction name arity =
      (before.scopes.scope position).lookupFunction name arity

/-- A definition fails and changes nothing, or it puts a variable with a new cell
into its scope. -/
theorem Machine.defineVariable_cases (machine : Machine) (position : Nat) (name : String)
    (type : Ty) (isMutable : Bool) (value : Value) :
    (((machine.scopes.scope position).lookup name).isSome ∧
      machine.defineVariable position name type isMutable value = (false, machine)) ∨
    ((machine.scopes.scope position).lookup name = none ∧ ∃ extended,
      (machine.scopes.scope position).defineVariable? name
        ⟨name, type, isMutable, machine.cells.size⟩ = some extended ∧
      machine.defineVariable position name type isMutable value =
        (true, { machine with
          scopes := machine.scopes.setScope position extended
          cells := machine.cells.push value })) := by
  cases found : (machine.scopes.scope position).lookup name with
  | some taken =>
      refine .inl ⟨rfl, ?_⟩
      simp [defineVariable, Scope.Tree.defineVariable, Scope.defineVariable?, found]
  | none =>
      refine .inr ⟨rfl, { machine.scopes.scope position with
        variableTable := (name, ⟨name, type, isMutable, machine.cells.size⟩) ::
          (machine.scopes.scope position).variableTable }, ?_, ?_⟩
      · simp only [Scope.defineVariable?, found]
      · simp [defineVariable, Scope.Tree.defineVariable, Scope.defineVariable?, found]

theorem Machine.defineFunction_of_free {machine : Machine} {position : Nat}
    {function : Machine.Function} (free : (machine.scopes.scope position).lookupFunction
      function.signature.name function.signature.arity = none) :
    ∃ extended, (machine.scopes.scope position).defineFunction? function.signature.name
        function.signature.arity function = some extended ∧
      machine.defineFunction position function =
        (true, { machine with scopes := machine.scopes.setScope position extended }) := by
  refine ⟨{ machine.scopes.scope position with
    functionTable := ((function.signature.name, function.signature.arity), function) ::
      (machine.scopes.scope position).functionTable }, ?_, ?_⟩
  · simp only [Scope.defineFunction?, free]
  · simp [defineFunction, Scope.Tree.defineFunction, Scope.defineFunction?, free]

theorem Machine.defineFunction_of_taken {machine : Machine} {position : Nat}
    {function : Machine.Function}
    (taken : ((machine.scopes.scope position).lookupFunction function.signature.name
      function.signature.arity).isSome) :
    machine.defineFunction position function = (false, machine) := by
  have refused := (Scope.defineFunction?_eq_none_iff _ _ _ function).mpr taken
  simp [defineFunction, Scope.Tree.defineFunction, refused]

namespace Machine.Framed

variable {before middle after : Machine} {gains otherGains : Nat → String → Prop}

theorem of_scopes_eq (current : after.current = before.current)
    (scopes : after.scopes = before.scopes)
    (cells : before.cells.size ≤ after.cells.size) : Framed gains before after where
  current := current
  places := Nat.le_of_eq (by rw [scopes])
  cells := cells
  outer _ _ := by rw [scopes]
  unchanged _ _ _ _ := by rw [scopes]
  persists _ _ _ _ found := by rw [scopes]; exact found
  functions _ _ _ _ := by rw [scopes]

theorem refl (machine : Machine) : Framed gains machine machine :=
  of_scopes_eq rfl rfl (Nat.le_refl _)

theorem weaken (framed : Framed gains before after)
    (more : ∀ position < before.scopes.places.size, ∀ name,
      gains position name → otherGains position name) :
    Framed otherGains before after :=
  { framed with
    unchanged := fun position present name not =>
      framed.unchanged position present name fun gained =>
        not (more position present name gained) }

theorem trans (first : Framed gains before middle) (second : Framed otherGains middle after) :
    Framed (fun position name => gains position name ∨ otherGains position name)
      before after where
  current := second.current.trans first.current
  places := Nat.le_trans first.places second.places
  cells := Nat.le_trans first.cells second.cells
  outer position present :=
    (second.outer position (Nat.lt_of_lt_of_le present first.places)).trans
      (first.outer position present)
  unchanged position present name not := by
    rw [second.unchanged position (Nat.lt_of_lt_of_le present first.places) name
      fun gained => not (.inr gained)]
    exact first.unchanged position present name fun gained => not (.inl gained)
  persists position present name found known :=
    second.persists position (Nat.lt_of_lt_of_le present first.places) name found
      (first.persists position present name found known)
  functions position present name arity :=
    (second.functions position (Nat.lt_of_lt_of_le present first.places) name arity).trans
      (first.functions position present name arity)

theorem child (machine : Machine) (position : Nat) :
    Framed gains machine (machine.child position).2 where
  current := rfl
  places := by simp [Machine.child]
  cells := Nat.le_refl _
  outer other present := machine.scopes.outer_child_of_lt position present
  unchanged other _ name _ := by simp [Machine.child]
  persists other _ name found known := by simpa [Machine.child] using known
  functions other _ name arity := by simp [Machine.child]

theorem defineVariable (machine : Machine) (position : Nat) (name : String) (type : Ty)
    (isMutable : Bool) (value : Value) :
    Framed (fun place other => place = position ∧ other = name) machine
      (machine.defineVariable position name type isMutable value).2 := by
  rcases machine.defineVariable_cases position name type isMutable value with
    ⟨_, same⟩ | ⟨fresh, extended, defined, grown⟩
  · rw [same]
    exact .refl machine
  · rw [grown]
    constructor
    · rfl
    · simp
    · simp
    · intro place _
      exact Scope.Tree.outer_setScope _ _ _ _
    · intro place present other not
      rw [Scope.Tree.lookup_setScope_defined defined present, if_neg not]
    · intro place present other found known
      rw [Scope.Tree.lookup_setScope_defined defined present]
      split
      · rename_i both
        rw [both.1, both.2, fresh] at known
        cases known
      · exact known
    · intro place present other arity
      exact Scope.Tree.lookupFunction_setScope_defined defined present other arity

theorem inside {entered left : Machine} (framed : Framed gains before entered)
    (ran : Framed otherGains { entered with current := position } left)
    (new : ∀ place < before.scopes.places.size, ∀ name, ¬otherGains place name) :
    Framed gains before { left with current := entered.current } := by
  have left : Framed otherGains entered { left with current := entered.current } :=
    ⟨rfl, ran.places, ran.cells, ran.outer, ran.unchanged, ran.persists, ran.functions⟩
  exact (framed.trans left).weaken fun place present name gained =>
    gained.resolve_right (new place present name)

theorem path_eq (framed : Framed gains before after) {position : Nat}
    (present : position < before.scopes.places.size) :
    after.scopes.path position = before.scopes.path position := by
  rw [Scope.Tree.path, Scope.Tree.path, framed.outer position present]

/-- From a scope around which nothing is gained, a name stands for the same variable. -/
theorem lookup_eq (framed : Framed gains before after) {position : Nat} {name : String}
    (inside : ∀ place ∈ before.scopes.path position, place < before.scopes.places.size)
    (untouched : ∀ place ∈ before.scopes.path position, ¬gains place name) :
    after.scopes.lookup position name = before.scopes.lookup position name :=
  Scope.Tree.lookup_congr (framed.path_eq (inside position List.mem_cons_self))
    fun place member => framed.unchanged place (inside place member) name (untouched place member)

theorem lookupFunction_eq (framed : Framed gains before after) {position : Nat}
    (inside : ∀ place ∈ before.scopes.path position, place < before.scopes.places.size)
    (name : String) (arity : Nat) :
    after.scopes.lookupFunction position name arity =
      before.scopes.lookupFunction position name arity :=
  Scope.Tree.lookupFunction_congr (framed.path_eq (inside position List.mem_cons_self))
    fun place member => framed.functions place (inside place member) name arity

end Machine.Framed

/-! ## Actions -/

/-- From every machine, the action adds at most the given names, all of them to
the current scope. -/
def Run.Declares (names : List String) (action : Run α) : Prop :=
  ∀ machine : Machine,
    machine.Framed (fun position name => position = machine.current ∧ name ∈ names)
      (action.run machine).2

namespace Run.Declares

variable {names others : List String} {action : Run α}

theorem framed {machine after : Machine} {result : Except Stop α}
    (declares : Declares names action) (ran : action.run machine = (result, after)) :
    machine.Framed (fun position name => position = machine.current ∧ name ∈ names) after := by
  have framed := declares machine
  rw [ran] at framed
  exact framed

theorem bind {next : α → Run β} (first : Declares names action)
    (second : ∀ value, Declares others (next value)) :
    Declares (names ++ others) (action >>= next) := by
  intro machine
  have start := first machine
  rw [run_bind]
  cases ran : action.run machine with
  | mk result middle =>
      rw [ran] at start
      cases result with
      | error stop =>
          exact start.weaken fun _ _ name gained =>
            ⟨gained.1, List.mem_append_left _ gained.2⟩
      | ok value =>
          apply (start.trans (second value middle)).weaken
          rintro position _ name (⟨rfl, member⟩ | ⟨rfl, member⟩)
          · exact ⟨rfl, List.mem_append_left _ member⟩
          · exact ⟨start.current, List.mem_append_right _ member⟩

theorem bind_nil {next : α → Run β} (first : Declares [] action)
    (second : ∀ value, Declares [] (next value)) : Declares [] (action >>= next) :=
  first.bind second

theorem of_scopes_eq
    (current : ∀ machine, (action.run machine).2.current = machine.current)
    (scopes : ∀ machine, (action.run machine).2.scopes = machine.scopes)
    (cells : ∀ machine : Machine, machine.cells.size ≤ (action.run machine).2.cells.size) :
    Declares names action := fun machine =>
  .of_scopes_eq (current machine) (scopes machine) (cells machine)

theorem of_unchanged (unchanged : ∀ machine, (action.run machine).2 = machine) :
    Declares names action := fun machine => by
  rw [unchanged machine]
  exact .refl machine

theorem pure (value : α) : Declares names (pure value) :=
  of_unchanged fun _ => rfl

theorem throw (stop : Stop) : Declares names (throw stop : Run α) :=
  of_unchanged fun _ => rfl

theorem fault (error : RuntimeError) : Declares names (fault error : Run α) :=
  of_unchanged fun _ => rfl

theorem get : Declares [] (get : Run Machine) :=
  of_unchanged fun _ => rfl

theorem currentScope : Declares [] currentScope :=
  of_unchanged fun _ => rfl

theorem check (result : Except RuntimeError α) : Declares [] (check result) :=
  of_unchanged fun _ => by cases result <;> rfl

theorem onMemory (action : ExceptT Stop (StateM Memory) α) :
    Declares [] (onMemory action) :=
  of_scopes_eq (fun _ => rfl) (fun _ => rfl) (fun _ => Nat.le_refl _)

theorem findVariable (name : String) : Declares [] (findVariable name) :=
  of_unchanged fun machine => by
    simp only [Run.findVariable, ExceptT.run, ExceptT.mk]
    split <;> rfl

theorem findFunction (position : Nat) (name : String) (arity : Nat) :
    Declares [] (findFunction position name arity) :=
  of_unchanged fun machine => by
    simp only [Run.findFunction, ExceptT.run, ExceptT.mk]
    split <;> rfl

theorem readCell (number : Nat) : Declares [] (readCell number) :=
  of_unchanged fun _ => rfl

theorem writeCell (number : Nat) (value : Value) : Declares [] (writeCell number value) :=
  of_scopes_eq (fun _ => rfl) (fun _ => rfl) (fun machine => by
    simp [Run.writeCell, ExceptT.run, ExceptT.mk, Machine.setCell])

theorem operate (operator : Operator) (left right : Value) :
    Declares [] (operate operator left right) :=
  of_unchanged fun _ => rfl

theorem equal (left right : Value) : Declares [] (equal left right) :=
  of_unchanged fun _ => rfl

theorem locate (container offset : Value) : Declares [] (locate container offset) :=
  (check _).bind_nil fun _ => (check _).bind_nil fun _ => get.bind_nil fun _ =>
    (check _).bind_nil fun _ => .pure _

theorem readElement (container offset : Value) : Declares [] (readElement container offset) :=
  (locate _ _).bind_nil fun _ => get.bind_nil fun _ => .pure _

theorem writeElement (container offset value : Value) :
    Declares [] (writeElement container offset value) :=
  (locate _ _).bind_nil fun _ =>
    of_scopes_eq (fun _ => rfl) (fun _ => rfl) (fun _ => Nat.le_refl _)

theorem define_current (name : String) (isMutable : Bool) (value : Value) :
    Declares [name] (do Run.define (← Run.currentScope) name isMutable value) := by
  intro machine
  apply (Machine.Framed.defineVariable machine machine.current name .any isMutable value).weaken
  rintro position _ other ⟨rfl, rfl⟩
  exact ⟨rfl, List.mem_singleton.mpr rfl⟩

theorem inChild (declares : Declares names action) : Declares [] (inChild action) := by
  intro machine
  have entered : machine.Framed (fun position name => position = machine.current ∧ name ∈ [])
      (machine.child machine.current).2 := .child machine machine.current
  have ran := declares
    { (machine.child machine.current).2 with current := machine.scopes.places.size }
  apply entered.inside ran
  rintro place present name ⟨rfl, _⟩
  exact Nat.lt_irrefl _ present

theorem repeatWhile {test : Run Bool} {body : Run Flow} (testDeclares : Declares [] test)
    (bodyDeclares : Declares [] body) (rounds : Nat) :
    Declares [] (repeatWhile test body rounds) := by
  induction rounds with
  | zero => exact .throw _
  | succ rounds induction =>
      apply testDeclares.bind_nil
      intro again
      cases again with
      | false => exact .pure _
      | true =>
          apply bodyDeclares.bind_nil
          intro flow
          cases flow with
          | normal => exact induction
          | returned value => exact .pure _

/-- Parameters are defined in their own scope, which need not be the current one. -/
theorem defineAll_framed (position : Nat) (bindings : List (String × Value))
    (machine : Machine) :
    machine.Framed (fun place _ => place = position)
      ((defineAll position bindings).run machine).2 := by
  induction bindings generalizing machine with
  | nil => exact .refl machine
  | cons head tail induction =>
      rcases head with ⟨name, value⟩
      have defined : machine.Framed (fun place _ => place = position)
          (machine.defineVariable position name .any true value).2 :=
        (Machine.Framed.defineVariable machine position name .any true value).weaken
          fun _ _ _ gained => gained.1
      rw [defineAll, run_bind]
      have opened : (define position name true value).run machine =
          ((if (machine.defineVariable position name .any true value).1 then .ok ()
            else .error (.fault (.redefinition name))),
            (machine.defineVariable position name .any true value).2) := rfl
      rw [opened]
      cases (machine.defineVariable position name .any true value).1 with
      | false => exact defined
      | true =>
          exact (defined.trans (induction _)).weaken fun _ _ _ gained => gained.elim id id

/-- A body runs in a new scope with its parameters; nothing of that is seen outside. -/
theorem body {block : Run α} {next : α → Run β} (declares : Declares names block)
    (closure : Nat) (arguments : List (String × Value))
    (finish : ∀ value, Declares [] (next value)) :
    Declares [] (do
      let scope ← newScope closure
      defineAll scope arguments
      next (← inScope scope block)) := by
  intro machine
  have entered : machine.Framed (fun position name => position = machine.current ∧ name ∈ [])
      (machine.child closure).2 := .child machine closure
  have bound := defineAll_framed machine.scopes.places.size arguments (machine.child closure).2
  have new : ∀ place < machine.scopes.places.size, ¬place = machine.scopes.places.size :=
    fun place present equal => Nat.ne_of_lt present equal
  have prepared : machine.Framed (fun position name => position = machine.current ∧ name ∈ [])
      ((defineAll machine.scopes.places.size arguments).run (machine.child closure).2).2 :=
    (entered.trans bound).weaken fun place present _ gained =>
      gained.resolve_right (new place present)
  have opened : (newScope closure).run machine =
      (.ok machine.scopes.places.size, (machine.child closure).2) := rfl
  rw [run_bind, opened]
  dsimp only
  rw [run_bind]
  cases ran : (defineAll machine.scopes.places.size arguments).run
      (machine.child closure).2 with
  | mk result ready =>
      rw [ran] at prepared
      cases result with
      | error stop => exact prepared
      | ok _ =>
          have inside := prepared.inside
            (declares { ready with current := machine.scopes.places.size })
            fun place present _ gained => new place present gained.1
          have closed : (inScope machine.scopes.places.size block).run ready =
              ((block.run { ready with current := machine.scopes.places.size }).1,
                { (block.run { ready with current := machine.scopes.places.size }).2 with
                  current := ready.current }) := rfl
          dsimp only
          rw [run_bind, closed]
          cases (block.run { ready with current := machine.scopes.places.size }).1 with
          | error stop => exact inside
          | ok value =>
              exact (inside.trans (finish value _)).weaken fun _ _ _ gained =>
                gained.resolve_right fun impossible => List.not_mem_nil impossible.2

end Run.Declares

/-! ## Expressions, statements and calls -/

section

variable {invoke : Invoke}

mutual

theorem Expr.evaluate_declares
    (calls : ∀ function arguments, (invoke function arguments).Declares []) :
    ∀ expression : Expr, (expression.evaluate invoke).Declares []
  | .literal _ _ => .pure _
  | .group _ inner => inner.evaluate_declares calls
  | .binary _ _ left right =>
      (left.evaluate_declares calls).bind_nil fun _ =>
        (right.evaluate_declares calls).bind_nil fun _ => .operate _ _ _
  | .access _ _ => (Run.Declares.findVariable _).bind_nil fun _ => .readCell _
  | .element _ _ index =>
      (index.evaluate_declares calls).bind_nil fun _ =>
        (Run.Declares.findVariable _).bind_nil fun _ =>
          (Run.Declares.readCell _).bind_nil fun _ => .readElement _ _
  | .call _ _ arguments =>
      (Expr.evaluateAll_declares calls arguments).bind_nil fun _ =>
        Run.Declares.currentScope.bind_nil fun _ =>
          (Run.Declares.findFunction _ _ _).bind_nil fun _ => calls _ _
  | .list _ elements =>
      (Expr.evaluateAll_declares calls elements).bind_nil fun _ => .onMemory _

theorem Expr.evaluateAll_declares
    (calls : ∀ function arguments, (invoke function arguments).Declares []) :
    ∀ expressions : List Expr, (Expr.evaluateAll invoke expressions).Declares []
  | [] => .pure _
  | head :: tail =>
      (head.evaluate_declares calls).bind_nil fun _ =>
        (Expr.evaluateAll_declares calls tail).bind_nil fun _ => .pure _

end

theorem Expr.evaluateInitial_declares
    (calls : ∀ function arguments, (invoke function arguments).Declares []) :
    ∀ value : Option Expr, (Expr.evaluateInitial invoke value).Declares []
  | some value => value.evaluate_declares calls
  | none => .pure _

theorem Expr.mutableVariable_declares (name : String) :
    (Expr.assign.mutableVariable name).Declares [] := by
  apply (Run.Declares.findVariable name).bind_nil
  intro target
  split
  · exact .pure _
  · exact .fault _

theorem Expr.assign_declares
    (calls : ∀ function arguments, (invoke function arguments).Declares [])
    (receiver value : Expr) : (receiver.assign invoke value).Declares [] := by
  unfold Expr.assign
  split
  · exact (mutableVariable_declares _).bind_nil fun _ =>
      (value.evaluate_declares calls).bind_nil fun _ => .writeCell _ _
  · rename_i index
    exact (mutableVariable_declares _).bind_nil fun _ =>
      (index.evaluate_declares calls).bind_nil fun _ =>
        (value.evaluate_declares calls).bind_nil fun _ =>
          (Run.Declares.readCell _).bind_nil fun _ => .writeElement _ _ _
  · exact .fault _

def Stmt.declaredNames : Stmt → List String
  | .declaration _ name _ _ => [name]
  | _ => []

mutual

theorem Stmt.execute_declares
    (calls : ∀ function arguments, (invoke function arguments).Declares []) (rounds : Nat) :
    ∀ statement : Stmt, (statement.execute invoke rounds).Declares statement.declaredNames
  | .expression value => (value.evaluate_declares calls).bind_nil fun _ => .pure _
  | .declaration _ name _ value => by
      apply (Expr.evaluateInitial_declares calls value).bind
      intro initial
      have finished : (pure Flow.normal : Run Flow).Declares [] := .pure _
      exact (Run.Declares.define_current name true initial).bind fun _ => finished
  | .assignment receiver value =>
      (receiver.assign_declares calls value).bind_nil fun _ => .pure _
  | .conditional condition whenTrue whenFalse => by
      refine (condition.evaluate_declares calls).bind_nil fun _ =>
        (Run.Declares.check _).bind_nil fun holds => ?_
      cases holds with
      | true => exact (Stmt.executeAll_declares calls rounds whenTrue).inChild
      | false => exact (Stmt.executeAll_declares calls rounds whenFalse).inChild
  | .switch condition cases =>
      (condition.evaluate_declares calls).bind_nil fun _ =>
        Case.executeAll_declares calls rounds _ cases
  | .loop condition body =>
      .repeatWhile
        ((condition.evaluate_declares calls).bind_nil fun _ => .check _)
        (Stmt.executeAll_declares calls rounds body).inChild rounds
  | .returns value => (value.evaluate_declares calls).bind_nil fun _ => .pure _

theorem Stmt.executeAll_declares
    (calls : ∀ function arguments, (invoke function arguments).Declares []) (rounds : Nat) :
    ∀ statements : List Stmt, (Stmt.executeAll invoke rounds statements).Declares
      (statements.flatMap Stmt.declaredNames)
  | [] => .pure _
  | head :: tail => by
      apply (head.execute_declares calls rounds).bind
      intro flow
      cases flow with
      | normal => exact Stmt.executeAll_declares calls rounds tail
      | returned value => exact .pure _

theorem Case.executeAll_declares
    (calls : ∀ function arguments, (invoke function arguments).Declares []) (rounds : Nat)
    (value : Value) :
    ∀ cases : List Case, (Case.executeAll invoke rounds value cases).Declares []
  | [] => .pure _
  | .mk none body :: _ => (Stmt.executeAll_declares calls rounds body).inChild
  | .mk (some test) body :: tail => by
      refine (test.evaluate_declares calls).bind_nil fun _ =>
        (Run.Declares.equal _ _).bind_nil fun same => ?_
      cases same with
      | true => exact (Stmt.executeAll_declares calls rounds body).inChild
      | false => exact Case.executeAll_declares calls rounds value tail

end

end

theorem Machine.invoke_declares (bound : Nat) (function : Machine.Function)
    (arguments : List Value) : (Machine.invoke bound function arguments).Declares [] := by
  induction bound generalizing function arguments with
  | zero => exact .throw _
  | succ bound induction =>
      unfold Machine.invoke
      split
      · exact .onMemory _
      · exact .fault _
      · rename_i parameters body closure _
        have executed := Stmt.executeAll_declares induction bound body
        apply Run.Declares.get.bind_nil
        intro machine
        split
        · apply (Run.Declares.fault _).bind_nil
          intro _
          apply executed.body closure (parameters.zip arguments)
          intro flow
          cases flow <;> exact .pure _
        · apply executed.body closure (parameters.zip arguments)
          intro flow
          cases flow <;> exact .pure _

/-! ## Programs -/

/-- Globals are defined in the outermost scope; that their values are evaluated gains
nothing. -/
theorem Global.define_framed (bound : Nat) (declaration : Global) (machine : Machine) :
    machine.Framed (fun place _ => place = Machine.global)
      ((declaration.define bound).run machine).2 := by
  have evaluated := Expr.evaluateInitial_declares (Machine.invoke_declares bound)
    declaration.value machine
  rw [Global.define, Run.run_bind]
  cases ran : (Expr.evaluateInitial (Machine.invoke bound) declaration.value).run machine with
  | mk result middle =>
      rw [ran] at evaluated
      cases result with
      | error stop => exact evaluated.weaken fun _ _ _ gained => absurd gained.2 List.not_mem_nil
      | ok value =>
          have defined := Machine.Framed.defineVariable middle Machine.global declaration.name .any
            declaration.isMutable value
          apply (evaluated.trans defined).weaken
          rintro place _ name (gained | gained)
          · exact absurd gained.2 List.not_mem_nil
          · exact gained.1

theorem Global.defineAll_framed (bound : Nat) (declarations : List Global) (machine : Machine) :
    machine.Framed (fun place _ => place = Machine.global)
      ((declarations.forM (Global.define bound)).run machine).2 := by
  induction declarations generalizing machine with
  | nil => exact .refl machine
  | cons head tail induction =>
      have defined := Global.define_framed bound head machine
      have opened : (head :: tail).forM (Global.define bound) =
          (head.define bound >>= fun _ => tail.forM (Global.define bound)) := rfl
      rw [opened, Run.run_bind]
      cases ran : (head.define bound).run machine with
      | mk result middle =>
          rw [ran] at defined
          cases result with
          | error stop => exact defined
          | ok _ =>
              exact (defined.trans (induction middle)).weaken fun _ _ _ gained =>
                or_self_iff.mp gained

end Plc
