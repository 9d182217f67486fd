import Plc.Proofs.Lexical.Views
import Plc.Proofs.Session.Globals

/-! Runs follow the text of the program. Wherever a run is, it is at a place of the program, and
the names it knows are those that are declared around that place. -/

namespace Plc

variable {start : Moment} {program : Program}

/-! ## Places -/

/-- The expressions that an activity comes to in its own scope, each with what is declared
around it. -/
def Activity.sites (scope : List Binder) : Activity → List (List Binder × Expr)
  | .evaluate value => Expr.within scope value.subterms
  | .evaluateAll values => Expr.within scope (Expr.subtermsOfAll values)
  | .execute statement => statement.sites scope
  | .executeAll statements => Stmt.sitesInAll scope statements
  | .select _ cases => Case.sitesInAll scope cases
  | .iterate condition body _ =>
      Expr.within scope condition.subterms ++ Stmt.sitesInAll scope body
  | _ => []

/-- The outermost scope knows the binders, and no function but those of the host. -/
structure Scope.Tree.Early (scopes : Machine.Scopes) (start : Moment) (scope : List Binder) :
    Prop where
  root : scopes.outer Machine.global = []
  shows : scopes.Shows start scope Machine.global
  natives : ∀ name arity function,
    scopes.lookupFunction Machine.global name arity = some function → function.IsNative

namespace Moment

/-- In the run that starts at `start`, the moment is at a place of the program, and its machine
knows what is declared around that place. -/
def Places (start : Moment) (program : Program) : Moment → Prop
  | ⟨_, .run other, machine⟩ => other = program ∧ machine.current = Machine.global ∧
      machine.scopes.Early start []
  | ⟨_, .defineGlobals rest, machine⟩ => ∃ earlier, program.globals = earlier ++ rest ∧
      machine.current = Machine.global ∧
      machine.scopes.Early start (Global.binders [] earlier)
  | ⟨_, .invoke function arguments, machine⟩ => function.IsNative ∨
      machine.scopes.Ready start program ∧ function.IsOf program arguments.length
  | ⟨_, .bind _ _ _ _, _⟩ | ⟨_, .define _ _ _ _ _, _⟩ => True
  | ⟨_, activity, machine⟩ => ∃ scope, activity.sites scope ⊆ program.sites ∧
      machine.scopes.Views start program scope machine.current

section

variable {bound : Nat} {machine : Machine} {scope : List Binder} {part : Moment}

/-! ## Expressions -/

private theorem placed_evaluate {value : Expr} {terms : List Expr}
    (sited : Expr.within scope terms ⊆ program.sites) (inside : value.subterms ⊆ terms)
    (views : machine.scopes.Views start program scope machine.current) :
    start.Places program ⟨bound, .evaluate value, machine⟩ :=
  ⟨scope, List.Subset.trans (List.map_subset _ inside) sited, views⟩

private theorem placed_evaluateAll {values terms : List Expr}
    (sited : Expr.within scope terms ⊆ program.sites) (inside : Expr.subtermsOfAll values ⊆ terms)
    (views : machine.scopes.Views start program scope machine.current) :
    start.Places program ⟨bound, .evaluateAll values, machine⟩ :=
  ⟨scope, List.Subset.trans (List.map_subset _ inside) sited, views⟩

private theorem placed_invoke {name : String} {function : Machine.Function} {values : List Value}
    (views : machine.scopes.Views start program scope machine.current)
    (found : machine.scopes.lookupFunction machine.current name values.length = some function) :
    start.Places program ⟨bound, .invoke function values, machine⟩ := by
  cases views.calls with
  | hosts natives => exact .inl (natives name values.length function found)
  | own ready _ functions =>
      rcases functions name values.length function found with native | own
      · exact .inl native
      · exact .inr ⟨ready, own⟩

private theorem evaluate_placed {value : Expr}
    (sited : Expr.within scope value.subterms ⊆ program.sites)
    (views : machine.scopes.Views start program scope machine.current)
    (member : part ∈ evaluateParts bound machine value) : start.Places program part := by
  have calls := Machine.invoke_declares bound
  cases value with
  | literal | access => cases member
  | group node inner =>
      cases List.mem_singleton.mp member
      exact placed_evaluate sited (List.subset_cons_self _ _) views
  | binary node operator left right =>
      rcases List.mem_cons.mp member with rfl | member
      · exact placed_evaluate sited (by simp [Expr.subterms]) views
      · rcases Run.mem_followedBy member with ⟨_, _, ran, member⟩
        cases List.mem_singleton.mp member
        exact placed_evaluate sited (by simp [Expr.subterms])
          (views.of_declares (left.evaluate_declares calls) ran)
  | element node name index =>
      cases List.mem_singleton.mp member
      exact placed_evaluate sited (List.subset_cons_self _ _) views
  | call node name arguments =>
      rcases List.mem_cons.mp member with rfl | member
      · exact placed_evaluateAll sited (List.subset_cons_self _ _) views
      · rcases Run.mem_followedBy member with ⟨values, middle, ran, member⟩
        rcases Run.mem_followedBy member with ⟨function, after, finds, member⟩
        cases List.mem_singleton.mp member
        have same : after = middle := (Run.Observes.findFunction _ _ _).after_eq finds
        subst same
        exact placed_invoke (views.of_declares (Expr.evaluateAll_declares calls arguments) ran)
          (Run.findFunction_eq_ok finds)
  | list node elements =>
      cases List.mem_singleton.mp member
      exact placed_evaluateAll sited (List.subset_cons_self _ _) views

private theorem evaluateAll_placed {values : List Expr}
    (sited : Expr.within scope (Expr.subtermsOfAll values) ⊆ program.sites)
    (views : machine.scopes.Views start program scope machine.current)
    (member : part ∈ parts ⟨bound, .evaluateAll values, machine⟩) :
    start.Places program part := by
  cases values with
  | nil => cases member
  | cons head tail =>
      rcases List.mem_cons.mp member with rfl | member
      · exact placed_evaluate sited (List.subset_append_left _ _) views
      · rcases Run.mem_followedBy member with ⟨_, _, ran, member⟩
        cases List.mem_singleton.mp member
        exact placed_evaluateAll sited (List.subset_append_right _ _)
          (views.of_declares (head.evaluate_declares (Machine.invoke_declares bound)) ran)

private theorem initial_placed {value : Option Expr} {terms : List Expr}
    (sited : Expr.within scope terms ⊆ program.sites)
    (inside : (value.map Expr.subterms).getD [] ⊆ terms)
    (views : machine.scopes.Views start program scope machine.current)
    (member : part ∈ initialParts bound machine value) : start.Places program part := by
  cases value with
  | none => cases member
  | some value =>
      cases List.mem_singleton.mp member
      exact placed_evaluate sited inside views

/-! ## Statements -/

private theorem placed_block {body : List Stmt}
    (sited : Stmt.sitesInAll scope body ⊆ program.sites)
    (views : machine.scopes.Views start program scope machine.current) :
    start.Places program (block bound machine body) :=
  ⟨scope, sited, views.child⟩

theorem views_of_execute {statement : Stmt} {flow : Flow} {after : Machine}
    (included : start.Includes ⟨bound, .execute statement, machine⟩)
    (views : machine.scopes.Views start program scope machine.current)
    (ran : (statement.execute (Machine.invoke bound) bound).run machine = (.ok flow, after)) :
    after.scopes.Views start program (statement.binders scope) after.current := by
  have declares := statement.execute_declares (Machine.invoke_declares bound) bound
  cases statement with
  | declaration id name typeName value =>
      rcases Run.bind_eq_ok ran with ⟨initial, middle, evaluated, ran⟩
      rcases Run.bind_eq_ok ran with ⟨_, _, located, ran⟩
      cases located
      rcases Run.bind_eq_ok ran with ⟨_, last, defined, ran⟩
      cases ran
      have known := views.of_declares
        (Expr.evaluateInitial_declares (Machine.invoke_declares bound) value) evaluated
      have defining : start.Includes ⟨bound,
          .define (.plain typeName value) middle.current name true initial, middle⟩ := by
        apply included.trans (.inside (List.mem_append_right _ ?_) (.self _))
        rw [Run.followedBy_eq evaluated]
        exact List.mem_singleton.mpr rfl
      have stays : after.current = middle.current := by
        rcases Run.define_eq_ok defined with ⟨_, _, rfl⟩
        rfl
      have extended : after.scopes.Views start program
          (.declared id name typeName value :: scope) middle.current :=
        known.define rfl defining defined
      rw [stays]
      exact extended
  | expression | assignment | conditional | switch | loop | returns =>
      exact views.of_declares declares ran

private theorem execute_placed {statement : Stmt}
    (sited : statement.sites scope ⊆ program.sites)
    (views : machine.scopes.Views start program scope machine.current)
    (member : part ∈ executeParts bound machine statement) : start.Places program part := by
  have calls := Machine.invoke_declares bound
  cases statement with
  | expression value | returns value =>
      cases List.mem_singleton.mp member
      exact ⟨scope, sited, views⟩
  | declaration id name typeName value =>
      rcases List.mem_append.mp member with initial | member
      · exact initial_placed sited (List.Subset.refl _) views initial
      · rcases Run.mem_followedBy member with ⟨_, _, _, member⟩
        cases List.mem_singleton.mp member
        exact trivial
  | assignment receiver value =>
      cases receiver with
      | access node name =>
          rcases Run.mem_followedBy member with ⟨_, _, ran, member⟩
          cases List.mem_singleton.mp member
          exact placed_evaluate sited (List.subset_append_right _ _)
            (views.of_declares (Expr.mutableVariable_declares name) ran)
      | element node name index =>
          rcases Run.mem_followedBy member with ⟨_, _, ran, member⟩
          have found := views.of_declares (Expr.mutableVariable_declares name) ran
          rcases List.mem_cons.mp member with rfl | member
          · exact placed_evaluate sited
              (List.subset_append_of_subset_left _ (List.subset_cons_self _ _)) found
          · rcases Run.mem_followedBy member with ⟨_, _, ran, member⟩
            cases List.mem_singleton.mp member
            exact placed_evaluate sited (List.subset_append_right _ _)
              (found.of_declares (index.evaluate_declares calls) ran)
      | literal | group | binary | call | list => cases member
  | conditional condition whenTrue whenFalse =>
      rw [Stmt.sites, List.append_subset, List.append_subset] at sited
      rcases List.mem_cons.mp member with rfl | member
      · exact placed_evaluate sited.1.1 (List.Subset.refl _) views
      · rcases Run.mem_followedBy member with ⟨_, _, ran, member⟩
        have tested := views.of_declares (condition.evaluate_declares calls) ran
        rcases Run.mem_followedBy member with ⟨holds, _, ran, member⟩
        have checked := tested.of_declares (.check _) ran
        cases List.mem_singleton.mp member
        cases holds with
        | true => exact placed_block sited.1.2 checked
        | false => exact placed_block sited.2 checked
  | switch condition cases =>
      rw [Stmt.sites, List.append_subset] at sited
      rcases List.mem_cons.mp member with rfl | member
      · exact placed_evaluate sited.1 (List.Subset.refl _) views
      · rcases Run.mem_followedBy member with ⟨_, _, ran, member⟩
        cases List.mem_singleton.mp member
        exact ⟨scope, sited.2, views.of_declares (condition.evaluate_declares calls) ran⟩
  | loop condition body =>
      cases List.mem_singleton.mp member
      exact ⟨scope, sited, views⟩

private theorem executeAll_placed {statements : List Stmt}
    (included : start.Includes ⟨bound, .executeAll statements, machine⟩)
    (sited : Stmt.sitesInAll scope statements ⊆ program.sites)
    (views : machine.scopes.Views start program scope machine.current)
    (member : part ∈ parts ⟨bound, .executeAll statements, machine⟩) :
    start.Places program part := by
  cases statements with
  | nil => cases member
  | cons head tail =>
      rw [Stmt.sitesInAll, List.append_subset] at sited
      have first : start.Includes ⟨bound, .execute head, machine⟩ :=
        included.trans (.inside List.mem_cons_self (.self _))
      rcases List.mem_cons.mp member with rfl | member
      · exact ⟨scope, sited.1, views⟩
      · rcases Run.mem_followedBy member with ⟨flow, after, ran, member⟩
        cases flow with
        | returned value => cases member
        | normal =>
            cases List.mem_singleton.mp member
            exact ⟨head.binders scope, sited.2, views_of_execute first views ran⟩

private theorem select_placed {value : Value} {cases : List Case}
    (sited : Case.sitesInAll scope cases ⊆ program.sites)
    (views : machine.scopes.Views start program scope machine.current)
    (member : part ∈ selectParts bound machine value cases) : start.Places program part := by
  cases cases with
  | nil => cases member
  | cons head tail =>
      rcases head with ⟨test, body⟩
      rw [Case.sitesInAll, List.append_subset, List.append_subset] at sited
      cases test with
      | none =>
          cases List.mem_singleton.mp member
          exact placed_block sited.1.2 views
      | some test =>
          rcases List.mem_cons.mp member with rfl | member
          · exact placed_evaluate sited.1.1 (List.Subset.refl _) views
          · rcases Run.mem_followedBy member with ⟨_, _, ran, member⟩
            have tested := views.of_declares
              (test.evaluate_declares (Machine.invoke_declares bound)) ran
            rcases Run.mem_followedBy member with ⟨same, _, ran, member⟩
            have compared := tested.of_declares (.equal _ _) ran
            cases List.mem_singleton.mp member
            cases same with
            | true => exact placed_block sited.1.2 compared
            | false => exact ⟨scope, sited.2, compared⟩

private theorem iterate_placed {condition : Expr} {body : List Stmt} {rounds : Nat}
    (sited : Expr.within scope condition.subterms ++ Stmt.sitesInAll scope body ⊆ program.sites)
    (views : machine.scopes.Views start program scope machine.current)
    (member : part ∈ iterateParts bound machine condition body rounds) :
    start.Places program part := by
  have calls := Machine.invoke_declares bound
  have both := List.append_subset.mp sited
  cases rounds with
  | zero => cases member
  | succ rounds =>
      rcases List.mem_cons.mp member with rfl | member
      · exact placed_evaluate both.1 (List.Subset.refl _) views
      · rcases Run.mem_followedBy member with ⟨_, _, ran, member⟩
        have tested := views.of_declares (condition.evaluate_declares calls) ran
        rcases Run.mem_followedBy member with ⟨again, _, ran, member⟩
        have checked := tested.of_declares (.check _) ran
        cases again with
        | false => cases member
        | true =>
            rcases List.mem_cons.mp member with rfl | member
            · exact placed_block both.2 checked
            · rcases Run.mem_followedBy member with ⟨flow, _, ran, member⟩
              have quiet := (Stmt.executeAll_declares calls bound body).inChild
              cases flow with
              | returned value => cases member
              | normal =>
                  cases List.mem_singleton.mp member
                  exact ⟨scope, sited, checked.of_declares quiet ran⟩

/-! ## Calls -/

private theorem views_of_defineAll {procedure : Procedure} {parameters : List Parameter}
    {values : List Value} {index position : Nat} {after : Machine}
    (included : start.Includes ⟨bound, .bind procedure.function.signature index position
      ((parameters.map Parameter.name).zip values), machine⟩)
    (length : parameters.length = values.length)
    (views : machine.scopes.Views start program scope position)
    (ran : (Run.defineAll position ((parameters.map Parameter.name).zip values)).run machine =
      (.ok (), after)) :
    after.scopes.Views start program (procedure.bindersFrom index scope parameters) position := by
  induction parameters generalizing values index scope machine with
  | nil =>
      cases ran
      exact views
  | cons head tail induction =>
      cases values with
      | nil => cases length
      | cons value values =>
          rcases Run.bind_eq_ok ran with ⟨_, middle, defined, ran⟩
          have arity : procedure.function.signature.arity = procedure.parameters.length := by
            simp [Procedure.function, Machine.untyped, Signature.arity]
          have defining : start.Includes ⟨bound,
              .define (.parameter procedure.name procedure.parameters.length index) position
                head.name true value, machine⟩ := by
            rw [← arity]
            exact included.trans (.inside List.mem_cons_self (.self _))
          have rest : start.Includes ⟨bound, .bind procedure.function.signature (index + 1)
              position ((tail.map Parameter.name).zip values), middle⟩ := by
            apply included.trans (.inside (List.mem_cons_of_mem _ ?_) (.self _))
            rw [Run.followedBy_eq defined]
            exact List.mem_singleton.mpr rfl
          have known : middle.scopes.Views start program
              (.parameter procedure index head :: scope) position :=
            views.define rfl defining defined
          exact induction rest (Nat.succ.inj length) known ran

private theorem views_of_ready (ready : machine.scopes.Ready start program)
    (procedure : Procedure) :
    (machine.child Machine.global).2.scopes.Views start program
      (.result procedure :: Global.binders [] program.globals) machine.scopes.places.size where
  shows := ready.globals.child.of_filter_eq (List.filter_cons_of_neg (by simp [Binder.isOwn]))
  calls := by
    refine .own (ready.child Machine.global) (Nat.ne_of_lt ready.globals.present).symm ?_
    intro name arity function found
    rw [Machine.child, Scope.Tree.lookupFunction_child] at found
    exact ready.functions name arity function found

private theorem invokeParts_eq (bound : Nat) (procedure : Procedure) (arguments : List Value)
    (attached : Machine.global < machine.scopes.places.size) :
    invokeParts machine procedure.function arguments (bound + 1) =
      ⟨bound, .bind procedure.function.signature 0 machine.scopes.places.size
        ((procedure.parameters.map Parameter.name).zip arguments),
        (machine.child Machine.global).2⟩ ::
      (Run.defineAll machine.scopes.places.size
        ((procedure.parameters.map Parameter.name).zip arguments)).followedBy
          (machine.child Machine.global).2 fun _ ready =>
            [⟨bound, .executeAll procedure.body,
              { ready with current := machine.scopes.places.size }⟩] :=
  if_neg (Nat.not_le_of_lt attached)

private theorem invoke_placed {function : Machine.Function} {arguments : List Value}
    (included : start.Includes ⟨bound, .invoke function arguments, machine⟩)
    (callable : function.IsNative ∨
      machine.scopes.Ready start program ∧ function.IsOf program arguments.length)
    (member : part ∈ invokeParts machine function arguments bound) :
    start.Places program part := by
  cases bound with
  | zero => cases member
  | succ bound =>
      rcases callable with ⟨behaviour, native⟩ | ⟨ready, procedure, among, rfl, length⟩
      · rw [invokeParts, native] at member
        cases member
      · have inner : ∀ other ∈ invokeParts machine procedure.function arguments (bound + 1),
            start.Includes other := fun _ among => included.trans (.inside among (.self _))
        rw [invokeParts_eq bound procedure arguments ready.globals.present] at member inner
        rcases List.mem_cons.mp member with rfl | member
        · exact trivial
        · rcases Run.mem_followedBy member with ⟨_, after, ran, member⟩
          cases List.mem_singleton.mp member
          have known : after.scopes.Views start program
              (procedure.binders (Global.binders [] program.globals))
              machine.scopes.places.size :=
            views_of_defineAll (inner _ List.mem_cons_self) length
              (views_of_ready ready procedure) ran
          refine ⟨_, ?_, known⟩
          intro site inside
          exact List.mem_append_right _ (List.mem_flatMap.mpr ⟨procedure, among, inside⟩)

/-! ## Programs -/

private theorem defineGlobals_placed {declarations : List Global}
    (included : start.Includes ⟨bound, .defineGlobals declarations, machine⟩)
    (placed : start.Places program ⟨bound, .defineGlobals declarations, machine⟩)
    (member : part ∈ parts ⟨bound, .defineGlobals declarations, machine⟩) :
    start.Places program part := by
  rcases placed with ⟨earlier, all, current, early⟩
  cases declarations with
  | nil => cases member
  | cons head tail =>
      have views : machine.scopes.Views start program (Global.binders [] earlier)
          machine.current := by
        rw [current]
        exact ⟨early.shows, .hosts early.natives⟩
      rcases List.mem_append.mp member with initial | following
      · have sited : Expr.within (Global.binders [] earlier) head.subterms ⊆ program.sites := by
          rw [Program.sites, all, Global.sitesInAll_append, Global.sitesInAll]
          simp
        exact initial_placed sited (List.Subset.refl _) views initial
      · rcases Run.mem_followedBy following with ⟨value, evaluated, evaluates, following⟩
        rcases List.mem_cons.mp following with rfl | following
        · exact trivial
        · rcases Run.mem_followedBy following with ⟨_, after, defines, following⟩
          cases List.mem_singleton.mp following
          have framed := Global.define_framed bound head machine
          rw [Global.define, Run.run_bind, evaluates] at framed
          dsimp only at framed
          rw [defines] at framed
          have same := framed.lookupFunction_eq early.shows.inside
          have known := views.of_declares
            (Expr.evaluateInitial_declares (Machine.invoke_declares bound) head.value) evaluates
          have stays : evaluated.current = Machine.global :=
            ((Expr.evaluateInitial_declares (Machine.invoke_declares bound)
              head.value).current_eq evaluates).trans current
          have defining : start.Includes ⟨bound, .define (.plain head.typeName head.value)
              Machine.global head.name head.isMutable value, evaluated⟩ := by
            apply included.trans (.inside (List.mem_append_right _ ?_) (.self _))
            rw [Run.followedBy_eq evaluates]
            exact List.mem_cons_self
          rw [stays] at known
          have extended : after.scopes.Views start program
              (.global head :: Global.binders [] earlier) Machine.global :=
            known.define rfl defining defines
          refine ⟨earlier ++ [head], by simp [all], framed.current.trans current, ?_, ?_, ?_⟩
          · exact (framed.outer Machine.global early.shows.present).trans early.root
          · simpa [Global.binders] using extended.shows
          · exact fun name arity => same name arity ▸ early.natives name arity

private theorem early_of_globals {declarations : List Global} {after : Machine}
    (included : start.Includes ⟨bound, .defineGlobals declarations, machine⟩)
    (placed : start.Places program ⟨bound, .defineGlobals declarations, machine⟩)
    (ran : (declarations.forM (Global.define bound)).run machine = (.ok (), after)) :
    after.scopes.Early start (Global.binders [] program.globals) := by
  induction declarations generalizing machine with
  | nil =>
      cases ran
      rcases placed with ⟨earlier, all, _, early⟩
      rw [all, List.append_nil]
      exact early
  | cons head tail induction =>
      rw [defineGlobals_cons] at ran
      rcases Run.bind_eq_ok ran with ⟨value, evaluated, evaluates, ran⟩
      rcases Run.bind_eq_ok ran with ⟨_, defined, defines, ran⟩
      have member : ⟨bound, .defineGlobals tail, defined⟩ ∈
          parts ⟨bound, .defineGlobals (head :: tail), machine⟩ := by
        apply List.mem_append_right
        rw [Run.followedBy_eq evaluates]
        apply List.mem_cons_of_mem
        rw [Run.followedBy_eq defines]
        exact List.mem_singleton.mpr rfl
      exact induction (included.trans (.inside member (.self _)))
        (defineGlobals_placed included placed member) ran

private theorem ready_of_procedures {after : Machine}
    (early : machine.scopes.Early start (Global.binders [] program.globals))
    (ran : (program.procedures.forM Procedure.define).run machine = (.ok (), after)) :
    after.scopes.Ready start program := by
  have adds := Procedure.defineAll_adds early.shows.present ran
  have root : after.scopes.outer Machine.global = [] := by
    rw [← early.root]
    refine Run.forM_relates (fun _ before after =>
      after.scopes.outer Machine.global = before.scopes.outer Machine.global) (fun _ => rfl) ?_ ran
    intro procedure _ before middle after defines later
    have made : (before.defineFunction Machine.global procedure.function).2 = middle :=
      congrArg Prod.snd defines
    rw [later, ← made]
    exact (before.outer_defineFunction Machine.global procedure.function).2 Machine.global
  refine ⟨root, ?_, ?_⟩
  · apply early.shows.of_lookup_eq
    · intro place member
      rw [Scope.Tree.path, root] at member
      rw [List.mem_singleton.mp member]
      exact Nat.lt_of_lt_of_le early.shows.present adds.places
    · intro name
      rw [Scope.Tree.lookup_of_outer_eq_nil root, Scope.Tree.lookup_of_outer_eq_nil early.root]
      exact adds.bindings.others name List.not_mem_nil
  · intro name arity function found
    rw [Scope.Tree.lookupFunction_of_outer_eq_nil root] at found
    by_cases own : (name, arity) ∈ program.procedures.map fun procedure =>
        (procedure.name, procedure.parameters.length)
    · rcases List.mem_map.mp own with ⟨procedure, member, same⟩
      cases same
      rcases adds.functions.added procedure member with ⟨entry, known, rfl⟩
      rw [known] at found
      cases found
      exact .inr ⟨procedure, member, rfl, rfl⟩
    · have kept := adds.functions.others (name, arity) own
      dsimp only at kept
      rw [kept] at found
      rw [← Scope.Tree.lookupFunction_of_outer_eq_nil early.root] at found
      exact .inl (early.natives name arity function found)

private theorem run_placed (included : start.Includes ⟨bound, .run program, machine⟩)
    (current : machine.current = Machine.global) (early : machine.scopes.Early start [])
    (member : part ∈ parts ⟨bound, .run program, machine⟩) : start.Places program part := by
  have placed : start.Places program ⟨bound, .defineGlobals program.globals, machine⟩ :=
    ⟨[], rfl, current, early⟩
  have globals : start.Includes ⟨bound, .defineGlobals program.globals, machine⟩ :=
    included.trans (.inside List.mem_cons_self (.self _))
  rcases List.mem_cons.mp member with rfl | member
  · exact placed
  · rcases Run.mem_followedBy member with ⟨_, defined, defines, member⟩
    rcases Run.mem_followedBy member with ⟨_, declared, declares, member⟩
    rcases Run.mem_followedBy member with ⟨function, after, finds, member⟩
    cases List.mem_singleton.mp member
    have same : after = declared := (Run.Observes.findFunction _ _ _).after_eq finds
    subst same
    have ready := ready_of_procedures (early_of_globals globals placed defines) declares
    rcases ready.functions "main" 0 function (Run.findFunction_eq_ok finds) with native | own
    · exact .inl native
    · exact .inr ⟨ready, own⟩

end

theorem places_part {whole part : Moment} (included : start.Includes whole)
    (placed : start.Places program whole) (member : part ∈ whole.parts) :
    start.Places program part := by
  rcases whole with ⟨bound, activity, machine⟩
  cases activity with
  | evaluate value =>
      rcases placed with ⟨scope, sited, views⟩
      exact evaluate_placed sited views member
  | evaluateAll values =>
      rcases placed with ⟨scope, sited, views⟩
      exact evaluateAll_placed sited views member
  | execute statement =>
      rcases placed with ⟨scope, sited, views⟩
      exact execute_placed sited views member
  | executeAll statements =>
      rcases placed with ⟨scope, sited, views⟩
      exact executeAll_placed included sited views member
  | select value cases =>
      rcases placed with ⟨scope, sited, views⟩
      exact select_placed sited views member
  | iterate condition body rounds =>
      rcases placed with ⟨scope, sited, views⟩
      exact iterate_placed sited views member
  | invoke function arguments => exact invoke_placed included placed member
  | bind signature index position bindings =>
      cases bindings with
      | nil => cases member
      | cons head tail =>
          rcases List.mem_cons.mp member with rfl | member
          · exact trivial
          · rcases Run.mem_followedBy member with ⟨_, _, _, member⟩
            cases List.mem_singleton.mp member
            exact trivial
  | define declaration position name isMutable value => cases member
  | defineGlobals declarations => exact defineGlobals_placed included placed member
  | run other =>
      rcases placed with ⟨rfl, current, early⟩
      exact run_placed included current early member

/-- Every moment of the run is at a place of the program. -/
theorem places_of_includes {whole inner : Moment} (includes : whole.Includes inner)
    (included : start.Includes whole) (placed : start.Places program whole) :
    start.Places program inner := by
  induction includes with
  | self => exact placed
  | inside member _ induction =>
      exact induction (included.trans (.inside member (.self _)))
        (places_part included placed member)

end Moment

end Plc
