import Plc.Proofs.Machine.Scopes
import Plc.Proofs.Session.Turns

/-! What a session leaves in the outermost scope. A turn ends where it began, in that scope;
what a name stands for there is settled by its first definition; and a program that fails
part of the way has defined what came before and nothing else. -/

namespace Plc

/-! ## Tables that grow -/

/-- The table `after` is `before` with an entry for each of the items, all of them new. -/
structure TableAdds (key : ι → κ) (fits : ι → β → Prop) (items : List ι)
    (before after : κ → Option β) : Prop where
  distinct : (items.map key).Nodup
  free : ∀ item ∈ items, before (key item) = none
  added : ∀ item ∈ items, ∃ entry, after (key item) = some entry ∧ fits item entry
  others : ∀ other, other ∉ items.map key → after other = before other

namespace TableAdds

variable {key : ι → κ} {fits weaker : ι → β → Prop} {items more : List ι}
  {before middle after : κ → Option β}

theorem nil (same : ∀ other, after other = before other) :
    TableAdds key fits [] before after where
  distinct := List.nodup_nil
  free _ member := by cases member
  added _ member := by cases member
  others other _ := same other

theorem single [DecidableEq κ] {item : ι} {entry : β} (free : before (key item) = none)
    (fit : fits item entry)
    (defined : ∀ other, after other = if other = key item then some entry else before other) :
    TableAdds key fits [item] before after where
  distinct := by simp
  free other member := by
    rw [List.mem_singleton.mp member]
    exact free
  added other member := by
    rw [List.mem_singleton.mp member]
    exact ⟨entry, by simp [defined], fit⟩
  others other notThere := by
    have different : other ≠ key item := by simpa using notThere
    rw [defined, if_neg different]

theorem mono (adds : TableAdds key fits items before after)
    (weaken : ∀ item entry, fits item entry → weaker item entry) :
    TableAdds key weaker items before after where
  distinct := adds.distinct
  free := adds.free
  added item member := by
    rcases adds.added item member with ⟨entry, found, fit⟩
    exact ⟨entry, found, weaken item entry fit⟩
  others := adds.others

theorem persists (adds : TableAdds key fits items before after) (known : κ) {entry : β}
    (found : before known = some entry) : after known = some entry := by
  rw [adds.others known, found]
  intro taken
  rcases List.mem_map.mp taken with ⟨item, member, rfl⟩
  rw [adds.free item member] at found
  cases found

theorem trans (first : TableAdds key fits items before middle)
    (second : TableAdds key fits more middle after) :
    TableAdds key fits (items ++ more) before after := by
  have freeLater : ∀ item ∈ more, key item ∉ items.map key := by
    intro item member known
    rcases List.mem_map.mp known with ⟨earlier, earlierMember, same⟩
    rcases first.added earlier earlierMember with ⟨entry, found, _⟩
    rw [same, second.free item member] at found
    cases found
  refine ⟨?_, ?_, ?_, ?_⟩
  · rw [List.map_append, List.nodup_append]
    refine ⟨first.distinct, second.distinct, ?_⟩
    rintro _ earlier _ later rfl
    rcases List.mem_map.mp later with ⟨item, member, same⟩
    exact freeLater item member (same ▸ earlier)
  · intro item member
    rcases List.mem_append.mp member with earlier | later
    · exact first.free item earlier
    · rw [← first.others _ (freeLater item later)]
      exact second.free item later
  · intro item member
    rcases List.mem_append.mp member with earlier | later
    · rcases first.added item earlier with ⟨entry, found, fit⟩
      exact ⟨entry, second.persists _ found, fit⟩
    · exact second.added item later
  · intro other notThere
    rw [List.map_append, List.mem_append, not_or] at notThere
    rw [second.others other notThere.2, first.others other notThere.1]

end TableAdds

/-! ## The outermost scope -/

namespace Machine

/-- A variable of the outermost scope as a declaration asks for it, in a cell that is not
one of the first `cells`. -/
def IsDefinitionOf (cells : Nat) (declaration : Global) (defined : Variable) : Prop :=
  ∃ cell, cells ≤ cell ∧
    defined = ⟨declaration.name, .any, declaration.isMutable, cell⟩

/-- The outermost scope of `after` is that of `before` with these variables and functions,
which are all new, and with nothing else. -/
structure Adds (globals : List Plc.Global) (procedures : List Procedure)
    (before after : Machine) : Prop where
  current : after.current = before.current
  places : before.scopes.places.size ≤ after.scopes.places.size
  cells : before.cells.size ≤ after.cells.size
  bindings : TableAdds (·.name) (IsDefinitionOf before.cells.size) globals
    before.globalScope.lookup after.globalScope.lookup
  functions : TableAdds (fun procedure => (procedure.name, procedure.parameters.length))
    (fun procedure function => function = procedure.function) procedures
    (fun key => before.globalScope.lookupFunction key.1 key.2)
    (fun key => after.globalScope.lookupFunction key.1 key.2)

namespace Adds

variable {globals moreGlobals : List Plc.Global} {procedures moreProcedures : List Procedure}
  {before middle after machine : Machine}

theorem of_framed {gains : Nat → String → Prop} (framed : Framed gains before after)
    (present : global < before.scopes.places.size) (quiet : ∀ name, ¬gains global name) :
    Adds [] [] before after where
  current := framed.current
  places := framed.places
  cells := framed.cells
  bindings := .nil fun name => framed.unchanged global present name (quiet name)
  functions := .nil fun key => framed.functions global present key.1 key.2

theorem trans (first : Adds globals procedures before middle)
    (second : Adds moreGlobals moreProcedures middle after) :
    Adds (globals ++ moreGlobals) (procedures ++ moreProcedures) before after where
  current := second.current.trans first.current
  places := Nat.le_trans first.places second.places
  cells := Nat.le_trans first.cells second.cells
  bindings := first.bindings.trans <| second.bindings.mono
    fun _ _ ⟨cell, later, same⟩ => ⟨cell, Nat.le_trans first.cells later, same⟩
  functions := first.functions.trans second.functions

theorem refl (present : global < machine.scopes.places.size) : Adds [] [] machine machine := by
  have framed : Framed (fun _ _ => False) machine machine := .refl machine
  exact .of_framed framed present fun _ => id

end Adds

end Machine

theorem Run.define_adds {machine : Machine} (declaration : Global) (value : Value)
    (present : Machine.global < machine.scopes.places.size) :
    (Run.define Machine.global declaration.name declaration.isMutable value).Ensures machine
      (fun _ after => Machine.Adds [declaration] [] machine after)
      (fun _ after => Machine.Adds [] [] machine after) := by
  have opened : (Run.define Machine.global declaration.name declaration.isMutable value).run
      machine =
      (if (machine.defineVariable Machine.global declaration.name .any declaration.isMutable
          value).1 then .ok () else .error (.fault (.redefinition declaration.name)),
      (machine.defineVariable Machine.global declaration.name .any declaration.isMutable
        value).2) := rfl
  have framed := Machine.Framed.defineVariable machine Machine.global declaration.name .any
    declaration.isMutable value
  unfold Run.Ensures
  rw [opened]
  rcases machine.defineVariable_cases Machine.global declaration.name .any
    declaration.isMutable value with ⟨_, same⟩ | ⟨free, extended, grown, same⟩
  · rw [same]
    exact .refl present
  · rw [same] at framed ⊢
    refine ⟨framed.current, framed.places, framed.cells, ?_, ?_⟩
    · refine .single free ⟨machine.cells.size, Nat.le_refl _, rfl⟩ ?_
      intro other
      rw [Scope.Tree.lookup_setScope_defined grown present]
      simp
    · exact .nil fun key => framed.functions Machine.global present key.1 key.2

theorem Procedure.define_adds {machine : Machine} (procedure : Procedure)
    (present : Machine.global < machine.scopes.places.size) :
    procedure.define.Ensures machine
      (fun _ after => Machine.Adds [] [procedure] machine after)
      (fun _ after => Machine.Adds [] [] machine after) := by
  have opened : procedure.define.run machine =
      (if (machine.defineFunction Machine.global procedure.function).1 then .ok ()
        else .error (.fault (.redefinition procedure.name)),
      (machine.defineFunction Machine.global procedure.function).2) := rfl
  have arity : procedure.function.signature.arity = procedure.parameters.length := by
    simp [Procedure.function, Machine.untyped, Signature.arity]
  have name : procedure.function.signature.name = procedure.name := rfl
  unfold Run.Ensures
  rw [opened]
  cases known : machine.globalScope.lookupFunction procedure.function.signature.name
      procedure.function.signature.arity with
  | some function =>
      rw [Machine.defineFunction_of_taken (Option.isSome_of_eq_some known)]
      exact .refl present
  | none =>
      rcases Machine.defineFunction_of_free known with ⟨extended, grown, same⟩
      rw [same]
      refine ⟨rfl, by simp, Nat.le_refl _, ?_, ?_⟩
      · exact .nil fun other =>
          Scope.Tree.lookup_setScope_definedFunction grown present other
      · rw [name, arity] at known
        refine .single known rfl ?_
        intro other
        rw [Scope.Tree.lookupFunction_setScope_definedFunction grown present, name, arity]
        simp [Prod.ext_iff]

/-! ## Lists of declarations -/

/-- Of the actions for the items, one after the other, the one at `index` is the first that
does not give a value. -/
def Run.StopsAt (action : ι → Run Unit) (items : List ι) (machine : Machine) (index : Nat)
    (stop : Stop) (after : Machine) : Prop :=
  ∃ item middle, items[index]? = some item ∧
    ((items.take index).forM action).run machine = (.ok (), middle) ∧
    (action item).run middle = (.error stop, after)

namespace Run

variable {action : ι → Run Unit} {items : List ι} {machine middle after : Machine}
  {index : Nat} {stop : Stop}

theorem forM_cons_run {item : ι} (ran : (action item).run machine = (.ok (), middle)) :
    ((item :: items).forM action).run machine = (items.forM action).run middle := by
  have first : (item :: items).forM action = (action item >>= fun _ => items.forM action) := rfl
  rw [first, run_bind, ran]

theorem forM_cons_stop {item : ι} (ran : (action item).run machine = (.error stop, after)) :
    ((item :: items).forM action).run machine = (.error stop, after) := by
  have first : (item :: items).forM action = (action item >>= fun _ => items.forM action) := rfl
  rw [first, run_bind, ran]

theorem StopsAt.cons {item : ι} (ran : (action item).run machine = (.ok (), middle))
    (stops : StopsAt action items middle index stop after) :
    StopsAt action (item :: items) machine (index + 1) stop after := by
  rcases stops with ⟨other, before, found, earlier, stopped⟩
  refine ⟨other, before, found, ?_, stopped⟩
  rw [List.take_succ_cons, forM_cons_run ran]
  exact earlier

theorem forM_ok_or_stopsAt (action : ι → Run Unit) (items : List ι) (machine : Machine) :
    (∃ after, (items.forM action).run machine = (.ok (), after)) ∨
      ∃ index stop after, StopsAt action items machine index stop after := by
  induction items generalizing machine with
  | nil => exact .inl ⟨machine, rfl⟩
  | cons item rest induction =>
      cases ran : (action item).run machine with
      | mk result middle =>
          cases result with
          | error stop => exact .inr ⟨0, stop, middle, item, machine, rfl, rfl, ran⟩
          | ok _ =>
              rcases induction middle with ⟨after, finished⟩ | ⟨index, stop, after, stops⟩
              · exact .inl ⟨after, (forM_cons_run ran).trans finished⟩
              · exact .inr ⟨index + 1, stop, after, stops.cons ran⟩

theorem StopsAt.run_eq (stops : StopsAt action items machine index stop after) :
    (items.forM action).run machine = (.error stop, after) := by
  induction items generalizing machine index with
  | nil =>
      rcases stops with ⟨item, middle, found, _⟩
      cases found
  | cons item rest induction =>
      rcases stops with ⟨other, before, found, earlier, stopped⟩
      cases index with
      | zero =>
          cases found
          cases earlier
          exact forM_cons_stop stopped
      | succ index =>
          rw [List.take_succ_cons] at earlier
          cases ran : (action item).run machine with
          | mk result middle =>
              cases result with
              | error reason =>
                  rw [forM_cons_stop ran] at earlier
                  cases earlier
              | ok _ =>
                  rw [forM_cons_run ran] at earlier ⊢
                  exact induction ⟨other, before, found, earlier, stopped⟩

theorem forM_relates (relates : List ι → Machine → Machine → Prop)
    (empty : ∀ machine, relates [] machine machine)
    (step : ∀ item rest before middle after, (action item).run before = (.ok (), middle) →
      relates rest middle after → relates (item :: rest) before after)
    (ran : (items.forM action).run machine = (.ok (), after)) : relates items machine after := by
  induction items generalizing machine with
  | nil =>
      cases ran
      exact empty _
  | cons item rest induction =>
      cases ranItem : (action item).run machine with
      | mk result middle =>
          cases result with
          | error reason =>
              rw [forM_cons_stop ranItem] at ran
              cases ran
          | ok _ =>
              rw [forM_cons_run ranItem] at ran
              exact step item rest machine middle after ranItem (induction ran)

end Run

section

variable {bound : Nat} {machine after : Machine}

theorem Expr.evaluateInitial_adds (bound : Nat) (value : Option Expr)
    (present : Machine.global < machine.scopes.places.size) :
    Machine.Adds [] [] machine
      ((Expr.evaluateInitial (Machine.invoke bound) value).run machine).2 :=
  .of_framed (Expr.evaluateInitial_declares (Machine.invoke_declares bound) value machine)
    present fun _ gained => List.not_mem_nil gained.2

theorem Global.define_adds (declaration : Global)
    (present : Machine.global < machine.scopes.places.size) :
    (declaration.define bound).Ensures machine
      (fun _ after => Machine.Adds [declaration] [] machine after)
      (fun _ after => Machine.Adds [] [] machine after) := by
  have quiet := Expr.evaluateInitial_adds bound declaration.value present
  have evaluated : (Expr.evaluateInitial (Machine.invoke bound) declaration.value).Ensures machine
      (fun _ after => Machine.Adds [] [] machine after)
      (fun _ after => Machine.Adds [] [] machine after) := by
    apply Run.Ensures.intro
    · intro value after ran
      rw [ran] at quiet
      exact quiet
    · intro stop after ran
      rw [ran] at quiet
      exact quiet
  apply evaluated.bind
  intro value middle _ quiet
  apply (Run.define_adds declaration value (Nat.lt_of_lt_of_le present quiet.places)).mono
  · intro _ after _ added
    exact quiet.trans added
  · intro _ after same
    exact quiet.trans same

theorem Global.defineAll_adds {declarations : List Global}
    (present : Machine.global < machine.scopes.places.size)
    (ran : (declarations.forM (Global.define bound)).run machine = (.ok (), after)) :
    Machine.Adds declarations [] machine after := by
  refine Run.forM_relates (fun declarations before after =>
    Machine.global < before.scopes.places.size → Machine.Adds declarations [] before after)
    (fun _ => .refl) ?_ ran present
  intro declaration rest before middle after ran later present
  have first := (declaration.define_adds present).value ran
  exact first.trans (later (Nat.lt_of_lt_of_le present first.places))

theorem Procedure.defineAll_adds {procedures : List Procedure}
    (present : Machine.global < machine.scopes.places.size)
    (ran : (procedures.forM Procedure.define).run machine = (.ok (), after)) :
    Machine.Adds [] procedures machine after := by
  refine Run.forM_relates (fun procedures before after =>
    Machine.global < before.scopes.places.size → Machine.Adds [] procedures before after)
    (fun _ => .refl) ?_ ran present
  intro procedure rest before middle after ran later present
  have first := (procedure.define_adds present).value ran
  exact first.trans (later (Nat.lt_of_lt_of_le present first.places))

theorem Machine.call_adds (bound : Nat) (name : String) (arguments : List Value)
    (present : Machine.global < machine.scopes.places.size) :
    Machine.Adds [] [] machine ((Machine.call bound name arguments).run machine).2 := by
  have declares : (Machine.call bound name arguments).Declares [] :=
    (Run.Declares.findFunction _ _ _).bind_nil fun _ => Machine.invoke_declares bound _ _
  exact .of_framed (declares machine) present fun _ gained => List.not_mem_nil gained.2

theorem Program.run_of_global_stops {program : Program} {index : Nat} {stop : Stop}
    (present : Machine.global < machine.scopes.places.size)
    (stops : Run.StopsAt (Global.define bound) program.globals machine index stop after) :
    (program.run bound).run machine = (.error stop, after) ∧
      Machine.Adds (program.globals.take index) [] machine after := by
  constructor
  · rw [Program.run, Run.run_bind, stops.run_eq]
  · rcases stops with ⟨declaration, middle, _, ran, stopped⟩
    have before := Global.defineAll_adds present ran
    have here := (declaration.define_adds (Nat.lt_of_lt_of_le present before.places)).stop stopped
    simpa using before.trans here

theorem Program.run_of_function_stops {program : Program} {index : Nat} {stop : Stop}
    {ready : Machine} (present : Machine.global < machine.scopes.places.size)
    (defined : (program.globals.forM (Global.define bound)).run machine = (.ok (), ready))
    (stops : Run.StopsAt Procedure.define program.procedures ready index stop after) :
    (program.run bound).run machine = (.error stop, after) ∧
      Machine.Adds program.globals (program.procedures.take index) machine after := by
  constructor
  · rw [Program.run, Run.run_bind, defined]
    dsimp only
    rw [Run.run_bind, stops.run_eq]
  · have globals := Global.defineAll_adds present defined
    have readyPresent := Nat.lt_of_lt_of_le present globals.places
    rcases stops with ⟨procedure, middle, _, ran, stopped⟩
    have before := Procedure.defineAll_adds readyPresent ran
    have here := (procedure.define_adds
      (Nat.lt_of_lt_of_le readyPresent before.places)).stop stopped
    simpa using globals.trans (before.trans here)

theorem Program.run_of_defined {program : Program} {ready done : Machine}
    (present : Machine.global < machine.scopes.places.size)
    (defined : (program.globals.forM (Global.define bound)).run machine = (.ok (), ready))
    (declared : (program.procedures.forM Procedure.define).run ready = (.ok (), done)) :
    Machine.Adds program.globals program.procedures machine
      ((program.run bound).run machine).2 := by
  have globals := Global.defineAll_adds present defined
  have readyPresent := Nat.lt_of_lt_of_le present globals.places
  have functions := Procedure.defineAll_adds readyPresent declared
  have donePresent := Nat.lt_of_lt_of_le readyPresent functions.places
  have called := Machine.call_adds bound "main" [] donePresent
  rw [Program.run, Run.run_bind, defined]
  dsimp only
  rw [Run.run_bind, declared]
  simpa using globals.trans (functions.trans called)

/-- Every run stops at one of the globals or at one of the functions, or adds them all. -/
theorem Program.run_stops_or_adds (bound : Nat) (program : Program)
    (present : Machine.global < machine.scopes.places.size) :
    (∃ index stop after,
      Run.StopsAt (Global.define bound) program.globals machine index stop after) ∨
    (∃ ready index stop after,
      (program.globals.forM (Global.define bound)).run machine = (.ok (), ready) ∧
      Run.StopsAt Procedure.define program.procedures ready index stop after) ∨
    Machine.Adds program.globals program.procedures machine
      ((program.run bound).run machine).2 := by
  rcases Run.forM_ok_or_stopsAt (Global.define bound) program.globals machine with
    ⟨ready, defined⟩ | stops
  · rcases Run.forM_ok_or_stopsAt Procedure.define program.procedures ready with
      ⟨done, declared⟩ | ⟨index, stop, after, stops⟩
    · exact .inr (.inr (Program.run_of_defined present defined declared))
    · exact .inr (.inl ⟨ready, index, stop, after, defined, stops⟩)
  · exact .inl stops

end

/-! ## Sessions -/

/-- What `before` has in its outermost scope, `after` has as well and unchanged. -/
structure Machine.Retains (before after : Machine) : Prop where
  current : after.current = before.current
  places : before.scopes.places.size ≤ after.scopes.places.size
  bindings : ∀ name known, before.globalScope.lookup name = some known →
    after.globalScope.lookup name = some known
  functions : ∀ name arity known, before.globalScope.lookupFunction name arity = some known →
    after.globalScope.lookupFunction name arity = some known

namespace Machine.Retains

variable {before middle after : Machine}

theorem refl (machine : Machine) : Retains machine machine :=
  ⟨rfl, Nat.le_refl _, fun _ _ => id, fun _ _ _ => id⟩

theorem trans (first : Retains before middle) (second : Retains middle after) :
    Retains before after where
  current := second.current.trans first.current
  places := Nat.le_trans first.places second.places
  bindings name known found := second.bindings name known (first.bindings name known found)
  functions name arity known found :=
    second.functions name arity known (first.functions name arity known found)

theorem of_adds {globals : List Plc.Global} {procedures : List Procedure}
    (adds : Adds globals procedures before after) : Retains before after where
  current := adds.current
  places := adds.places
  bindings name _ found := adds.bindings.persists name found
  functions name arity _ found := adds.functions.persists (name, arity) found

theorem defineFunction (machine : Machine) (present : global < machine.scopes.places.size)
    (function : Machine.Function) :
    machine.Retains (machine.defineFunction global function).2 := by
  cases known : machine.globalScope.lookupFunction function.signature.name
      function.signature.arity with
  | some _ =>
      rw [defineFunction_of_taken (Option.isSome_of_eq_some known)]
      exact .refl machine
  | none =>
      rcases defineFunction_of_free known with ⟨extended, grown, same⟩
      rw [same]
      refine ⟨rfl, by simp, ?_, ?_⟩
      · intro name found there
        rw [← there]
        exact Scope.Tree.lookup_setScope_definedFunction grown present name
      · intro name arity found there
        rw [Scope.Tree.lookupFunction_setScope_definedFunction grown present, ← there]
        apply if_neg
        rintro ⟨_, same⟩
        cases same
        rw [known] at there
        cases there

end Machine.Retains

section

variable {machine : Machine}

theorem Program.run_retains (bound : Nat) (program : Program)
    (present : Machine.global < machine.scopes.places.size) :
    machine.Retains ((program.run bound).run machine).2 := by
  rcases program.run_stops_or_adds bound present with
    ⟨index, stop, after, stops⟩ | ⟨ready, index, stop, after, defined, stops⟩ | adds
  · have ran := Program.run_of_global_stops present stops
    rw [ran.1]
    exact .of_adds ran.2
  · have ran := Program.run_of_function_stops present defined stops
    rw [ran.1]
    exact .of_adds ran.2
  · exact .of_adds adds

theorem Turn.serve_retains (turn : Turn)
    (present : Machine.global < machine.scopes.places.size) :
    machine.Retains (turn.serve machine).2 := by
  have started : machine.Retains (turn.start machine) :=
    ⟨rfl, Nat.le_refl _, fun _ _ => id, fun _ _ _ => id⟩
  have startPresent : Machine.global < (turn.start machine).scopes.places.size := present
  apply started.trans
  rcases turn with ⟨prepare, bound, request⟩
  cases request with
  | run program => exact program.run_retains bound startPresent
  | call name arguments => exact .of_adds (Machine.call_adds bound name arguments startPresent)
  | native name arity behaviour => exact .defineFunction _ startPresent _

theorem Machine.afterTurns_retains (turns : List Turn)
    (present : Machine.global < machine.scopes.places.size) :
    machine.Retains (machine.afterTurns turns) := by
  induction turns generalizing machine with
  | nil => exact .refl machine
  | cons turn rest induction =>
      have served := turn.serve_retains present
      exact served.trans (induction (Nat.lt_of_lt_of_le present served.places))

end

/-- A session begins and every turn of it ends in the outermost scope. What a name or a
function is there, it stays in all later turns. And a program that stops at one of its globals
or functions has added exactly what comes before that one; if it stops at none of them, it has
added them all. -/
theorem Machine.session_globals (output : Output) (turns : List Turn) :
    let machine := (Machine.standard output).afterTurns turns
    machine.current = Machine.global ∧
    (∀ later, machine.Retains (machine.afterTurns later)) ∧
    ∀ (bound : Nat) (program : Program) (memory : Memory), let start := { machine with memory }
      (∀ index stop after,
        Run.StopsAt (Global.define bound) program.globals start index stop after →
        (program.run bound).run start = (.error stop, after) ∧
          Machine.Adds (program.globals.take index) [] start after) ∧
      (∀ ready index stop after,
        (program.globals.forM (Global.define bound)).run start = (.ok (), ready) →
        Run.StopsAt Procedure.define program.procedures ready index stop after →
        (program.run bound).run start = (.error stop, after) ∧
          Machine.Adds program.globals (program.procedures.take index) start after) ∧
      ((∃ index stop after,
          Run.StopsAt (Global.define bound) program.globals start index stop after) ∨
        (∃ ready index stop after,
          (program.globals.forM (Global.define bound)).run start = (.ok (), ready) ∧
          Run.StopsAt Procedure.define program.procedures ready index stop after) ∨
        Machine.Adds program.globals program.procedures start
          ((program.run bound).run start).2) := by
  have presentFirst : Machine.global < (Machine.standard output).scopes.places.size :=
    Nat.zero_lt_one
  have since := Machine.afterTurns_retains turns presentFirst
  have present := Nat.lt_of_lt_of_le presentFirst since.places
  refine ⟨since.current, fun later => Machine.afterTurns_retains later present, ?_⟩
  intro bound program memory
  refine ⟨?_, ?_, ?_⟩
  · intro index stop after stops
    exact Program.run_of_global_stops present stops
  · intro ready index stop after defined stops
    exact Program.run_of_function_stops present defined stops
  · exact program.run_stops_or_adds bound present

/-- The second program of a session defines a variable and then one that the first program
had already: the session goes on with the variables of both, and the first keeps its meaning. -/
theorem Machine.session_globals_of_redefinition :
    let first : Program := ⟨[⟨0, "limit", none, false, none⟩], []⟩
    let second : Program :=
      ⟨[⟨0, "count", none, true, none⟩, ⟨1, "limit", none, true, none⟩], []⟩
    let machine := (Machine.standard (.empty none)).afterTurns [⟨id, 5, .run first⟩]
    ∃ after,
      Run.StopsAt (Global.define 5) second.globals machine 1
        (.fault (.redefinition "limit")) after ∧
      (second.run 5).run machine = (.error (.fault (.redefinition "limit")), after) ∧
      Machine.Adds [⟨0, "count", none, true, none⟩] [] machine after ∧
      machine.Retains (machine.afterTurns [⟨id, 5, .run second⟩]) := by
  intro first second machine
  have session := Machine.session_globals (.empty none) [⟨id, 5, .run first⟩]
  have stops : Run.StopsAt (Global.define 5) second.globals machine 1
      (.fault (.redefinition "limit")) _ := ⟨_, _, rfl, rfl, rfl⟩
  have stopped := (session.2.2 5 second machine.memory).1 1 _ _ stops
  exact ⟨_, stops, stopped.1, stopped.2, session.2.1 _⟩

end Plc
