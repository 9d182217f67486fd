import Plc.Proofs.Machine.Scopes
import Plc.Proofs.Program.Binders

/-! The names of a program in the scopes of a run. From a scope of the run, a name stands for
the variable that was defined for the nearest binder of the program with that name; for the
result of a function no variable is ever defined. -/

namespace Plc

/-! ## Binders and variables -/

namespace Binder

def isMutable : Binder → Bool
  | .global declaration => declaration.isMutable
  | .declared _ _ _ _ | .parameter _ _ _ => true
  | .result _ => false

/-- What introduces a variable for the binder while the program runs. -/
def declaration? : Binder → Option Declaration
  | .global declaration => some (.plain declaration.typeName declaration.value)
  | .declared _ _ typeName value => some (.plain typeName value)
  | .parameter procedure index _ =>
      some (.parameter procedure.name procedure.parameters.length index)
  | .result _ => none

/-- The run that starts at `start` has defined the variable for the binder. -/
def Makes (start : Moment) (binder : Binder) (made : Machine.Variable) : Prop :=
  ∃ declaration creating position value, binder.declaration? = some declaration ∧
    start.Includes creating ∧
    creating.activity = .define declaration position binder.name binder.isMutable value ∧
    made = ⟨binder.name, .any, binder.isMutable, creating.machine.cells.size⟩ ∧
    made.cell < creating.after.cells.size

theorem Makes.isOwn {start : Moment} {binder : Binder} {made : Machine.Variable}
    (makes : binder.Makes start made) : binder.isOwn = true := by
  rcases makes with ⟨declaration, _, _, _, stated, _⟩
  cases binder with
  | global | declared | parameter => rfl
  | result procedure => cases stated

end Binder

theorem Run.define_eq_ok {position : Nat} {name : String} {isMutable : Bool} {value : Value}
    {machine after : Machine}
    (ran : (Run.define position name isMutable value).run machine = (.ok (), after)) :
    ∃ extended, (machine.scopes.scope position).defineVariable? name
        ⟨name, .any, isMutable, machine.cells.size⟩ = some extended ∧
      after = { machine with
        scopes := machine.scopes.setScope position extended
        cells := machine.cells.push value } := by
  have opened : (Run.define position name isMutable value).run machine =
      ((if (machine.defineVariable position name .any isMutable value).1 then .ok ()
        else .error (.fault (.redefinition name))),
        (machine.defineVariable position name .any isMutable value).2) := rfl
  rw [opened] at ran
  rcases machine.defineVariable_cases position name .any isMutable value with
    ⟨_, same⟩ | ⟨_, extended, defined, same⟩
  · rw [same] at ran
    cases ran
  · rw [same] at ran
    cases ran
    exact ⟨extended, defined, rfl⟩

/-! ## What names stand for -/

abbrev Machine.Scopes := Scope.Tree Machine.Variable Machine.Function

namespace Scope.Tree

/-- From the scope at `position`, names stand for what the nearest binders of the program
declare. -/
structure Shows (scopes : Machine.Scopes) (start : Moment) (scope : List Binder) (position : Nat) :
    Prop where
  inside : ∀ place ∈ scopes.path position, place < scopes.places.size
  names : ∀ name, match Binder.nearest (scope.filter Binder.isOwn) name with
    | some binder => ∃ found, scopes.lookup position name = some found ∧ binder.Makes start found
    | none => scopes.lookup position name = none

namespace Shows

variable {start : Moment} {scope : List Binder} {position : Nat} {machine after : Machine}

theorem present (shows : machine.scopes.Shows start scope position) :
    position < machine.scopes.places.size :=
  shows.inside position List.mem_cons_self

theorem of_lookup_eq {scopes others : Machine.Scopes} {place : Nat}
    (known : scopes.Shows start scope position)
    (inside : ∀ other ∈ others.path place, other < others.places.size)
    (same : ∀ name, others.lookup place name = scopes.lookup position name) :
    others.Shows start scope place := by
  refine ⟨inside, fun name => ?_⟩
  rw [same]
  exact known.names name

theorem framed {gains : Nat → String → Prop}
    (known : machine.scopes.Shows start scope position) (framed : machine.Framed gains after)
    (untouched : ∀ place ∈ machine.scopes.path position, ∀ name, ¬gains place name) :
    after.scopes.Shows start scope position := by
  apply known.of_lookup_eq
  · intro place member
    rw [framed.path_eq known.present] at member
    exact Nat.lt_of_lt_of_le (known.inside place member) framed.places
  · exact fun name => framed.lookup_eq known.inside fun place member =>
      untouched place member name

theorem child {scopes : Machine.Scopes} (known : scopes.Shows start scope position) :
    (scopes.child position).2.Shows start scope scopes.places.size := by
  apply known.of_lookup_eq
  · intro place member
    rw [Scope.Tree.path_child] at member
    rw [Scope.Tree.size_child]
    rcases List.mem_cons.mp member with rfl | member
    · exact Nat.lt_succ_self _
    · exact Nat.lt_succ_of_lt (known.inside place member)
  · exact scopes.lookup_child position

theorem of_filter_eq {scopes : Machine.Scopes} {others : List Binder}
    (known : scopes.Shows start scope position)
    (same : others.filter Binder.isOwn = scope.filter Binder.isOwn) :
    scopes.Shows start others position := by
  refine ⟨known.inside, fun name => ?_⟩
  rw [same]
  exact known.names name

theorem define {bound : Nat} {binder : Binder} {declaration : Declaration} {value : Value}
    (known : machine.scopes.Shows start scope position)
    (stated : binder.declaration? = some declaration)
    (included : start.Includes ⟨bound, .define declaration position binder.name
      binder.isMutable value, machine⟩)
    (ran : (Run.define position binder.name binder.isMutable value).run machine =
      (.ok (), after)) :
    after.scopes.Shows start (binder :: scope) position := by
  rcases Run.define_eq_ok ran with ⟨extended, defined, rfl⟩
  have makes : binder.Makes start ⟨binder.name, .any, binder.isMutable, machine.cells.size⟩ := by
    refine ⟨declaration, _, position, value, stated, included, rfl, rfl, ?_⟩
    rw [Moment.after, ran]
    simp
  constructor
  · intro place member
    rw [Scope.Tree.size_setScope]
    exact known.inside place (Scope.Tree.path_setScope _ _ _ _ ▸ member)
  · intro name
    rw [List.filter_cons_of_pos makes.isOwn, Binder.nearest_cons,
      Scope.Tree.lookup_of_defined defined known.inside]
    by_cases same : name = binder.name
    · rw [if_pos same, if_pos same]
      exact ⟨_, rfl, makes⟩
    · rw [if_neg same, if_neg same]
      exact known.names name

end Shows

end Scope.Tree

/-! ## What can be called -/

def Machine.Function.IsNative (function : Machine.Function) : Prop :=
  ∃ behaviour, function.callable = .native behaviour

/-- The function is declared in the program, with that many parameters. -/
def Machine.Function.IsOf (function : Machine.Function) (program : Program) (arity : Nat) : Prop :=
  ∃ procedure ∈ program.procedures, function = procedure.function ∧
    procedure.parameters.length = arity

namespace Scope.Tree

/-- All globals and functions of the program are known. -/
structure Ready (scopes : Machine.Scopes) (start : Moment) (program : Program) : Prop where
  root : scopes.outer Machine.global = []
  globals : scopes.Shows start (Global.binders [] program.globals) Machine.global
  functions : ∀ name arity function,
    scopes.lookupFunction Machine.global name arity = some function →
      function.IsNative ∨ function.IsOf program arity

/-- Where functions of the program can be called, all its globals are known. -/
inductive Calls (scopes : Machine.Scopes) (start : Moment) (program : Program) (position : Nat) : Prop where
  | hosts (natives : ∀ name arity function,
      scopes.lookupFunction position name arity = some function → function.IsNative)
  | own (ready : scopes.Ready start program) (inner : position ≠ Machine.global)
      (functions : ∀ name arity function,
        scopes.lookupFunction position name arity = some function →
          function.IsNative ∨ function.IsOf program arity)

/-- What the run knows in the scope at `position` is what the program says. -/
structure Views (scopes : Machine.Scopes) (start : Moment) (program : Program) (scope : List Binder)
    (position : Nat) : Prop where
  shows : scopes.Shows start scope position
  calls : scopes.Calls start program position

variable {start : Moment} {program : Program} {scope : List Binder} {position : Nat}
  {machine after : Machine}

theorem Ready.framed {gains : Nat → String → Prop} (known : machine.scopes.Ready start program)
    (framed : machine.Framed gains after) (untouched : ∀ name, ¬gains Machine.global name) :
    after.scopes.Ready start program where
  root := (framed.outer Machine.global known.globals.present).trans known.root
  globals := by
    apply known.globals.framed framed
    intro place member
    rw [Scope.Tree.path, known.root] at member
    rw [List.mem_singleton.mp member]
    exact untouched
  functions name arity function found := by
    rw [framed.lookupFunction_eq known.globals.inside] at found
    exact known.functions name arity function found

theorem Ready.child (known : machine.scopes.Ready start program) (place : Nat) :
    (machine.scopes.child place).2.Ready start program := by
  have framed : machine.Framed (fun _ _ => False) (machine.child place).2 := .child machine place
  exact known.framed framed fun _ => id

theorem Calls.framed {names : List String} (known : machine.scopes.Calls start program position)
    (inside : ∀ place ∈ machine.scopes.path position, place < machine.scopes.places.size)
    (framed : machine.Framed (fun place name => place = position ∧ name ∈ names) after) :
    after.scopes.Calls start program position := by
  have same := framed.lookupFunction_eq inside
  cases known with
  | hosts natives => exact .hosts fun name arity => same name arity ▸ natives name arity
  | own ready inner functions =>
      refine .own (ready.framed framed fun name gained => inner gained.1.symm) inner ?_
      exact fun name arity => same name arity ▸ functions name arity

namespace Views

theorem of_declares {action : Run α} {result : Except Stop α}
    (known : machine.scopes.Views start program scope machine.current)
    (quiet : action.Declares []) (ran : action.run machine = (result, after)) :
    after.scopes.Views start program scope after.current := by
  have framed := quiet.framed ran
  rw [framed.current]
  refine ⟨known.shows.framed framed ?_, known.calls.framed known.shows.inside framed⟩
  exact fun place member name gained => List.not_mem_nil gained.2

theorem child (known : machine.scopes.Views start program scope position) :
    (machine.scopes.child position).2.Views start program scope machine.scopes.places.size := by
  refine ⟨known.shows.child, ?_⟩
  have same := machine.scopes.lookupFunction_child position
  cases known.calls with
  | hosts natives => exact .hosts fun name arity => same name arity ▸ natives name arity
  | own ready inner functions =>
      refine .own (ready.child position) ?_ fun name arity => same name arity ▸ functions name arity
      exact (Nat.ne_of_lt ready.globals.present).symm

theorem define {bound : Nat} {binder : Binder} {declaration : Declaration} {value : Value}
    (known : machine.scopes.Views start program scope position)
    (stated : binder.declaration? = some declaration)
    (included : start.Includes ⟨bound, .define declaration position binder.name
      binder.isMutable value, machine⟩)
    (ran : (Run.define position binder.name binder.isMutable value).run machine =
      (.ok (), after)) :
    after.scopes.Views start program (binder :: scope) position := by
  refine ⟨known.shows.define stated included ran, ?_⟩
  have framed := Machine.Framed.defineVariable machine position binder.name .any
    binder.isMutable value
  have grown : (machine.defineVariable position binder.name .any binder.isMutable value).2 =
      after := congrArg Prod.snd ran
  rw [grown] at framed
  have gained : machine.Framed (fun place name => place = position ∧ name ∈ [binder.name]) after :=
    framed.weaken fun _ _ _ gained => ⟨gained.1, List.mem_singleton.mpr gained.2⟩
  exact known.calls.framed known.shows.inside gained

end Views

end Scope.Tree

end Plc
