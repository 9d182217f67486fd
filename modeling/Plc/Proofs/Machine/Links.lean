import Plc.Proofs.Machine.Change

/-! Every moment is linked: it goes through its parts from its start to its end, and
what it does in between are changes of its own. There is one lemma for each activity. -/

namespace Plc.Moment

section

variable {bound : Nat} {machine start : Machine}

private theorem evaluate_current {value : Expr} {result : Except Stop Value} {after : Machine}
    (ran : (value.evaluate (Machine.invoke bound)).run machine = (result, after)) :
    after.current = machine.current :=
  (value.evaluate_declares (Machine.invoke_declares bound)).current_eq ran

private theorem evaluate_framed {value : Expr} {result : Except Stop Value} {after : Machine}
    (ran : (value.evaluate (Machine.invoke bound)).run machine = (result, after)) :
    machine.Framed (fun position name => position = machine.current ∧ name ∈ []) after :=
  (value.evaluate_declares (Machine.invoke_declares bound)).framed ran

private theorem block_linked {whole : Moment} (uses : whole.activity.usesScope = true)
    (wholeBound : whole.machine.scopes.places.size ≤ machine.scopes.places.size)
    (same : machine.current = whole.machine.current) (body : List Stmt) :
    whole.Linked machine [block bound machine body]
      ((Run.inChild (Stmt.executeAll (Machine.invoke bound) bound body)).run machine).2 := by
  have entered : whole.Change machine (block bound machine body).machine := by
    have enters : whole.Change machine _ := .enter uses
    rw [← same] at enters
    exact enters
  have left : whole.Change (block bound machine body).after
      { (block bound machine body).after with current := machine.current } := by
    have leaves : whole.Change (block bound machine body).after _ := .leave
    rw [← same] at leaves
    exact leaves
  exact .single (.single entered) (.inNew rfl wholeBound) (.single left)

private theorem evaluate_linked (value : Expr) :
    Linked ⟨bound, .evaluate value, machine⟩ machine (evaluateParts bound machine value)
      ((value.evaluate (Machine.invoke bound)).run machine).2 := by
  cases value with
  | literal node value => exact .refl
  | access node name =>
      have observes := (Run.Observes.findVariable name).bind fun found => .readCell found.cell
      have same := observes machine
      unfold Expr.evaluate
      rw [same]
      exact .refl
  | group node inner => exact .single .refl (.here rfl rfl rfl) .refl
  | binary node operator left right =>
      refine Linked.cons_bind .refl (.here rfl rfl rfl) .refl ?_
      intro leftValue after ran
      refine Linked.single_bind .refl (.here rfl rfl (evaluate_current ran)) .refl ?_
      exact fun _ _ _ => .refl
  | element node name index =>
      refine Linked.single_bind .refl (.here rfl rfl rfl) .refl ?_
      intro offset after ran
      have observes := (Run.Observes.findVariable name).bind fun found =>
        (Run.Observes.readCell found.cell).bind fun container => .readElement container offset
      rw [observes after]
  | call node name arguments =>
      refine Linked.cons_bind .refl (.here rfl rfl rfl) .refl ?_
      intro values after ran
      apply Linked.bind_observes (.findFunction _ _ _)
      intro function found
      have current : after.current = machine.current :=
        (Expr.evaluateAll_declares (Machine.invoke_declares bound) arguments).current_eq ran
      have begins : Begins ⟨bound, .evaluate (.call node name arguments), machine⟩
          ⟨bound, .invoke function values, after⟩ :=
        .called (.inr ⟨rfl, current⟩) (Run.findFunction_eq_ok found)
      exact .single .refl begins .refl
  | list node elements =>
      refine Linked.single_bind .refl (.here rfl rfl rfl) .refl ?_
      intro values after ran
      exact .single (.memory (.allocate rfl ran))

private theorem assign_linked (receiver value : Expr) :
    Linked ⟨bound, .execute (.assignment receiver value), machine⟩ machine
      (assignParts bound machine value receiver)
      ((receiver.assign (Machine.invoke bound) value).run machine).2 := by
  cases receiver with
  | access node name =>
      apply Linked.bind_observes (.mutableVariable name)
      intro target ran
      have found := Expr.mutableVariable_eq_ok ran
      refine Linked.single_bind .refl (.here rfl rfl rfl) .refl ?_
      intro written after _
      exact .single (.assign written rfl found.1 found.2)
  | element node name index =>
      apply Linked.bind_observes (.mutableVariable name)
      intro target ran
      refine Linked.cons_bind .refl (.here rfl rfl rfl) .refl ?_
      intro offset indexed ranIndex
      refine Linked.single_bind .refl (.here rfl rfl (evaluate_current ranIndex)) .refl ?_
      intro written after _
      have opened : (do Run.writeElement (← Run.readCell target.cell) offset written :
          Run Unit).run after =
            (Run.writeElement (after.cell target.cell) offset written).run after := rfl
      rw [opened]
      rcases Run.writeElement_after (after.cell target.cell) offset written after with
        same | ⟨id, position, stored⟩
      · rw [same]
      · rw [stored]
        exact .single (.memory (.store rfl id position written))
  | literal node value => exact .refl
  | group node inner => exact .refl
  | binary node operator left right => exact .refl
  | call node name arguments => exact .refl
  | list node elements => exact .refl

private theorem initial_linked {whole : Moment} (uses : whole.activity.usesScope = true)
    (same : machine.current = whole.machine.current) (value : Option Expr)
    {next : Value → Run β} {following : Value → Machine → List Moment}
    (rest : ∀ initial after, after.current = machine.current →
      whole.Linked after (following initial after) ((next initial).run after).2) :
    whole.Linked machine
      (initialParts bound machine value ++
        (Expr.evaluateInitial (Machine.invoke bound) value).followedBy machine following)
      ((Expr.evaluateInitial (Machine.invoke bound) value >>= next).run machine).2 := by
  cases value with
  | none => exact rest .nil machine rfl
  | some value =>
      refine Linked.cons_bind .refl (.here rfl uses same) .refl ?_
      intro initial after ran
      exact rest initial after (evaluate_current ran)

private theorem execute_linked (statement : Stmt) :
    Linked ⟨bound, .execute statement, machine⟩ machine (executeParts bound machine statement)
      ((statement.execute (Machine.invoke bound) bound).run machine).2 := by
  cases statement with
  | expression value =>
      exact .single_bind .refl (.here rfl rfl rfl) .refl fun _ _ _ => .refl
  | returns value =>
      exact .single_bind .refl (.here rfl rfl rfl) .refl fun _ _ _ => .refl
  | declaration id name typeName value =>
      apply initial_linked rfl rfl value
      intro initial after same
      have defines : Linked ⟨bound, .execute (.declaration id name typeName value), machine⟩ after
          [⟨bound, .define (.plain typeName value) after.current name true initial, after⟩]
          ((Run.define after.current name true initial >>= fun _ =>
            pure Flow.normal).run after).2 :=
        .single_bind .refl .defining .refl fun _ _ _ => .refl
      exact defines
  | assignment receiver value =>
      have assigned : Linked ⟨bound, .execute (.assignment receiver value), machine⟩ machine
          (assignParts bound machine value receiver) _ := assign_linked receiver value
      rw [← Run.after_bind_pure _ Flow.normal] at assigned
      exact assigned
  | conditional condition whenTrue whenFalse =>
      refine Linked.cons_bind .refl (.here rfl rfl rfl) .refl ?_
      intro value after ran
      apply Linked.bind_observes (.check _)
      intro holds _
      have wider := (evaluate_framed ran).places
      cases holds with
      | true => exact block_linked rfl wider (evaluate_current ran) whenTrue
      | false => exact block_linked rfl wider (evaluate_current ran) whenFalse
  | switch condition cases =>
      refine Linked.cons_bind .refl (.here rfl rfl rfl) .refl ?_
      intro value after ran
      exact .single .refl (.here rfl rfl (evaluate_current ran)) .refl
  | loop condition body => exact .single .refl (.here rfl rfl rfl) .refl

private theorem select_linked (value : Value) (cases : List Case) :
    Linked ⟨bound, .select value cases, machine⟩ machine (selectParts bound machine value cases)
      ((Case.executeAll (Machine.invoke bound) bound value cases).run machine).2 := by
  cases cases with
  | nil => exact .refl
  | cons head tail =>
      rcases head with ⟨_ | test, body⟩
      · exact block_linked rfl (Nat.le_refl _) rfl body
      · refine Linked.cons_bind .refl (.here rfl rfl rfl) .refl ?_
        intro tested after ran
        apply Linked.bind_observes (.equal _ _)
        intro same _
        cases same with
        | true => exact block_linked rfl (evaluate_framed ran).places (evaluate_current ran) body
        | false => exact .single .refl (.here rfl rfl (evaluate_current ran)) .refl

private theorem iterate_linked (condition : Expr) (body : List Stmt) (rounds : Nat) :
    Linked ⟨bound, .iterate condition body rounds, machine⟩ machine
      (iterateParts bound machine condition body rounds)
      ((Run.repeatWhile
        (do Run.check (← condition.evaluate (Machine.invoke bound)).asBoolean)
        (Run.inChild (Stmt.executeAll (Machine.invoke bound) bound body)) rounds).run
          machine).2 := by
  cases rounds with
  | zero => exact .refl
  | succ rounds =>
      rw [Run.repeatWhile, bind_assoc]
      refine Linked.cons_bind .refl (.here rfl rfl rfl) .refl ?_
      intro value after ran
      apply Linked.bind_observes (.check _)
      intro again _
      cases again with
      | false => exact .refl
      | true =>
          have executed : Linked ⟨bound, .iterate condition body (rounds + 1), machine⟩ after
              [block bound after body] _ :=
            block_linked rfl (evaluate_framed ran).places (evaluate_current ran) body
          refine Linked.cons_bind executed.1 executed.2.1 executed.2.2 ?_
          intro flow left ranBlock
          have stays := (Stmt.executeAll_declares (Machine.invoke_declares bound) bound
            body).inChild.current_eq ranBlock
          cases flow with
          | returned value => exact .refl
          | normal =>
              exact .single .refl (.here rfl rfl (stays.trans (evaluate_current ran))) .refl

theorem invoke_declared_run (bound : Nat) (machine : Machine) {function : Machine.Function}
    {parameters : List String} {body : List Stmt} {closure : Nat}
    (callable : function.callable = .declared parameters body closure)
    (present : closure < machine.scopes.places.size) (arguments : List Value) :
    (Machine.invoke (bound + 1) function arguments).run machine =
      (do
        Run.defineAll (machine.child closure).1 (parameters.zip arguments)
        match ← Run.inScope (machine.child closure).1
          (Stmt.executeAll (Machine.invoke bound) bound body) with
        | .normal => return .nil
        | .returned value => return value : Run Value).run (machine.child closure).2 := by
  have attached : ¬machine.scopes.places.size ≤ closure := Nat.not_le_of_lt present
  rw [Machine.invoke, callable]
  dsimp only
  rw [Run.run_bind, Run.run_get]
  dsimp only
  rw [if_neg attached]
  rfl

private theorem invoke_linked (function : Machine.Function) (arguments : List Value) :
    Linked ⟨bound, .invoke function arguments, machine⟩ machine
      (invokeParts machine function arguments bound)
      ((Machine.invoke bound function arguments).run machine).2 := by
  cases bound with
  | zero => exact .refl
  | succ bound =>
      cases callable : function.callable with
      | native behaviour =>
          simp only [invokeParts, callable, Machine.invoke]
          exact Relation.ReflTransGen.single (.memory (.native rfl callable))
      | signature =>
          simp only [invokeParts, callable, Machine.invoke]
          exact .refl
      | declared parameters body closure =>
          simp only [invokeParts, callable]
          split
          · rename_i detached
            simp only [Machine.invoke, callable]
            rw [Run.run_bind, Run.run_get]
            dsimp only
            rw [if_pos detached]
            exact .refl
          · rename_i attached
            have present := Nat.lt_of_not_le attached
            rw [invoke_declared_run bound machine callable present]
            have calls : Change ⟨bound + 1, .invoke function arguments, machine⟩ machine
                (machine.child closure).2 := .call rfl callable present
            apply Linked.prepend (.single calls)
            refine Linked.cons_bind .refl .binding .refl ?_
            intro _ ready ran
            have framed := Run.Declares.defineAll_framed (machine.child closure).1
              (parameters.zip arguments) (machine.child closure).2
            rw [ran] at framed
            have inside : (machine.child closure).1 < ready.scopes.places.size :=
              Nat.lt_of_lt_of_le (by simp [Machine.child, Scope.Tree.child]) framed.places
            have left : ready.current = machine.current := framed.current
            refine Linked.single_bind (.single (.body inside (Nat.le_refl _)))
              (.inNew rfl (Nat.le_refl _)) ?_ ?_
            · have leaves : Change ⟨bound + 1, .invoke function arguments, machine⟩
                  (after ⟨bound, .executeAll body,
                    { ready with current := (machine.child closure).1 }⟩) _ := .leave
              rw [← left] at leaves
              exact .single leaves
            · intro flow _ _
              cases flow <;> exact .refl

theorem defineGlobals_cons (bound : Nat) (head : Global) (tail : List Global) :
    (head :: tail).forM (Global.define bound) = (do
      let value ← Expr.evaluateInitial (Machine.invoke bound) head.value
      Run.define Machine.global head.name head.isMutable value
      tail.forM (Global.define bound)) := by
  have first : (head :: tail).forM (Global.define bound) =
      (head.define bound >>= fun _ => tail.forM (Global.define bound)) := rfl
  rw [first, Global.define, bind_assoc]

private theorem defineGlobals_linked (declarations : List Global) :
    Linked ⟨bound, .defineGlobals declarations, machine⟩ machine
      (parts ⟨bound, .defineGlobals declarations, machine⟩)
      ((declarations.forM (Global.define bound)).run machine).2 := by
  cases declarations with
  | nil => exact .refl
  | cons head tail =>
      rw [defineGlobals_cons]
      apply initial_linked rfl rfl head.value
      intro value evaluated same
      refine Linked.cons_bind .refl .defining .refl ?_
      intro _ defined ran
      have stays : defined.current = evaluated.current := by
        have framed := Machine.Framed.defineVariable evaluated Machine.global head.name .any
          head.isMutable value
        have after : (evaluated.defineVariable Machine.global head.name .any head.isMutable
            value).2 = defined := congrArg Prod.snd ran
        rw [after] at framed
        exact framed.current
      exact .single .refl (.here rfl rfl (stays.trans same)) .refl

private theorem defineFunctions_changes {program : Program} (procedures : List Procedure)
    (members : ∀ procedure ∈ procedures, procedure ∈ program.procedures) :
    Changes ⟨bound, .run program, start⟩ machine
      ((procedures.forM Procedure.define).run machine).2 := by
  induction procedures generalizing machine with
  | nil => exact .refl
  | cons head tail induction =>
      have first : (head :: tail).forM Procedure.define =
          (head.define >>= fun _ => tail.forM Procedure.define) := rfl
      have declares : Change ⟨bound, .run program, start⟩ machine (head.define.run machine).2 :=
        .declare rfl (members head List.mem_cons_self)
      rw [first, Run.run_bind]
      cases ran : head.define.run machine with
      | mk result after =>
          rw [ran] at declares
          cases result with
          | error stop => exact .single declares
          | ok _ =>
              exact .head declares
                (induction fun procedure member => members procedure (.tail _ member))

private theorem run_linked (program : Program) :
    Linked ⟨bound, .run program, machine⟩ machine (parts ⟨bound, .run program, machine⟩)
      ((program.run bound).run machine).2 := by
  refine Linked.cons_bind .refl (.here rfl rfl rfl) .refl ?_
  intro _ defined _
  apply Linked.bind (defineFunctions_changes program.procedures fun _ member => member)
  intro _ ready _
  apply Linked.bind_observes (.findFunction _ _ _)
  intro function found
  have begins : Begins ⟨bound, .run program, machine⟩ ⟨bound, .invoke function [], ready⟩ :=
    .called (.inl rfl) (Run.findFunction_eq_ok found)
  exact .single .refl begins .refl

end

/-- A moment goes through its parts from its start to its end, and makes nothing but
changes of its own in between. -/
theorem parts_linked (moment : Moment) :
    moment.Linked moment.machine moment.parts moment.after := by
  rcases moment with ⟨bound, activity, machine⟩
  cases activity with
  | evaluate value => exact evaluate_linked value
  | execute statement => exact execute_linked statement
  | select value cases => exact select_linked value cases
  | iterate condition body rounds => exact iterate_linked condition body rounds
  | invoke function arguments => exact invoke_linked function arguments
  | defineGlobals declarations => exact defineGlobals_linked declarations
  | run program => exact run_linked program
  | define declaration position name isMutable value =>
      exact Relation.ReflTransGen.single (.define rfl)
  | evaluateAll values =>
      cases values with
      | nil => exact .refl
      | cons head tail =>
          refine Linked.cons_bind .refl (.here rfl rfl rfl) .refl ?_
          intro value after ran
          exact .single_bind .refl (.here rfl rfl (evaluate_current ran)) .refl fun _ _ _ => .refl
  | executeAll statements =>
      cases statements with
      | nil => exact .refl
      | cons head tail =>
          refine Linked.cons_bind .refl (.here rfl rfl rfl) .refl ?_
          intro flow after ran
          have stays := (head.execute_declares (Machine.invoke_declares bound) bound).current_eq ran
          cases flow with
          | normal => exact .single .refl (.here rfl rfl stays) .refl
          | returned value => exact .refl
  | bind signature index position bindings =>
      cases bindings with
      | nil => exact .refl
      | cons head tail =>
          rcases head with ⟨name, value⟩
          refine Linked.cons_bind .refl .defining .refl ?_
          intro _ after _
          exact .single .refl .binding .refl

end Plc.Moment
