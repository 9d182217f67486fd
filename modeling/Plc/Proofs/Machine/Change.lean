import Mathlib.Logic.Relation
import Plc.Proofs.Machine.Moment

/-! What a moment does by itself. Between its parts a moment changes the machine in a few
ways only; everything else that happens, happens in the parts. An invariant of all runs has
to be shown for these changes alone. -/

namespace Plc

def Procedure.function (procedure : Procedure) : Machine.Function :=
  ⟨Machine.untyped procedure.name procedure.parameters.length,
    .declared (procedure.parameters.map (·.name)) procedure.body Machine.global⟩

/-- Whether the activity looks names up in the current scope. -/
def Activity.usesScope : Activity → Bool
  | .invoke _ _ | .bind _ _ _ _ | .define _ _ _ _ _ => false
  | _ => true

namespace Moment

/-! ## Changes -/

/-- How lists and the output come to be as in `memory`. -/
inductive Touches (moment : Moment) (machine : Machine) : Memory → Prop where
  | native {function : Machine.Function} {arguments : List Value} {behaviour : Native}
      (invokes : moment.activity = .invoke function arguments)
      (callable : function.callable = .native behaviour) :
      Touches moment machine ((behaviour arguments).run machine.memory).2
  /-- A list is made of the values that its elements had just before. -/
  | allocate {node : Node} {elements : List Expr} {values : List Value}
      (evaluates : moment.activity = .evaluate (.list node elements))
      (evaluated : (Expr.evaluateAll (Machine.invoke moment.bound) elements).run moment.machine =
        (.ok values, machine)) :
      Touches moment machine (machine.memory.allocate values).2
  | store {receiver value : Expr}
      (executes : moment.activity = .execute (.assignment receiver value)) (id index : Nat)
      (written : Value) :
      Touches moment machine (machine.memory.setElement id index written)

/-- One change that the moment itself makes to a machine. -/
inductive Change (moment : Moment) : Machine → Machine → Prop where
  /-- Lists are made and changed, and output is written. -/
  | memory {machine : Machine} {memory : Memory} (touches : moment.Touches machine memory) :
      Change moment machine { machine with memory }
  /-- The variable that was found when the moment started gets a new value. -/
  | assign {machine : Machine} {name : String} {target : Machine.Variable} (value : Value)
      (uses : moment.activity.usesScope = true)
      (found : moment.machine.scopes.lookup moment.machine.current name = some target)
      (isMutable : target.isMutable = true) :
      Change moment machine (machine.setCell target.cell value)
  /-- A block begins, in a new scope inside the one of the moment. -/
  | enter {machine : Machine} (uses : moment.activity.usesScope = true) :
      Change moment machine { (machine.child moment.machine.current).2 with
        current := (machine.child moment.machine.current).1 }
  /-- A scope is made for a function that is called. -/
  | call {machine : Machine} {function : Machine.Function} {arguments : List Value}
      {parameters : List String} {body : List Stmt} {closure : Nat}
      (invokes : moment.activity = .invoke function arguments)
      (callable : function.callable = .declared parameters body closure)
      (present : closure < machine.scopes.places.size) :
      Change moment machine (machine.child closure).2
  /-- A body begins, in a scope that was not there when the moment started. -/
  | body {machine : Machine} {position : Nat} (present : position < machine.scopes.places.size)
      (new : moment.machine.scopes.places.size ≤ position) :
      Change moment machine { machine with current := position }
  /-- A block or a body ends. -/
  | leave {machine : Machine} :
      Change moment machine { machine with current := moment.machine.current }
  /-- A variable is defined. -/
  | define {machine : Machine} {declaration : Declaration} {position : Nat} {name : String}
      {isMutable : Bool} {value : Value}
      (defines : moment.activity = .define declaration position name isMutable value) :
      Change moment machine (machine.defineVariable position name .any isMutable value).2
  /-- A function of the program is made known. -/
  | declare {machine : Machine} {program : Program} {procedure : Procedure}
      (runs : moment.activity = .run program) (member : procedure ∈ program.procedures) :
      Change moment machine (machine.defineFunction Machine.global procedure.function).2

abbrev Changes (moment : Moment) : Machine → Machine → Prop :=
  Relation.ReflTransGen moment.Change

/-! ## Links

The parts of a moment, and what it does before, between and after them. -/

/-- How a part starts. What uses a scope uses that of the whole or a new one, and what is
called was found by its name. -/
structure Begins (whole part : Moment) : Prop where
  located : part.activity.usesScope = true →
    whole.activity.usesScope = true ∧ part.machine.current = whole.machine.current ∨
      whole.machine.scopes.places.size ≤ part.machine.current
  found : ∀ function arguments, part.activity = .invoke function arguments →
    ∃ position name, (position = Machine.global ∨
        whole.activity.usesScope = true ∧ position = whole.machine.current) ∧
      part.machine.scopes.lookupFunction position name arguments.length = some function

namespace Begins

variable {whole part : Moment}

theorem here (partUses : part.activity.usesScope = true)
    (wholeUses : whole.activity.usesScope = true)
    (same : part.machine.current = whole.machine.current) : whole.Begins part where
  located _ := .inl ⟨wholeUses, same⟩
  found _ _ invokes := by
    rw [invokes] at partUses
    cases partUses

theorem inNew (partUses : part.activity.usesScope = true)
    (new : whole.machine.scopes.places.size ≤ part.machine.current) : whole.Begins part where
  located _ := .inr new
  found _ _ invokes := by
    rw [invokes] at partUses
    cases partUses

theorem binding {bound index position : Nat} {signature : Signature}
    {bindings : List (String × Value)} {machine : Machine} :
    whole.Begins ⟨bound, .bind signature index position bindings, machine⟩ where
  located := nofun
  found := nofun

theorem defining {bound position : Nat} {declaration : Declaration} {name : String}
    {isMutable : Bool} {value : Value} {machine : Machine} :
    whole.Begins ⟨bound, .define declaration position name isMutable value, machine⟩ where
  located := nofun
  found := nofun

theorem called {bound position : Nat} {name : String} {function : Machine.Function}
    {arguments : List Value} {machine : Machine}
    (located : position = Machine.global ∨
      whole.activity.usesScope = true ∧ position = whole.machine.current)
    (found : machine.scopes.lookupFunction position name arguments.length = some function) :
    whole.Begins ⟨bound, .invoke function arguments, machine⟩ where
  located uses := by cases uses
  found _ _ invokes := by
    cases invokes
    exact ⟨position, name, located, found⟩

end Begins

/-- From `machine`, the moment goes through the parts and ends at `last`. -/
def Linked (whole : Moment) (machine : Machine) : List Moment → Machine → Prop
  | [], last => whole.Changes machine last
  | part :: rest, last =>
      whole.Changes machine part.machine ∧ whole.Begins part ∧ whole.Linked part.after rest last

end Moment

/-! ## Actions that only look at the machine -/

def Run.Observes (action : Run α) : Prop :=
  ∀ machine, (action.run machine).2 = machine

namespace Run.Observes

theorem after_eq {action : Run α} (observes : Observes action) {machine after : Machine}
    {result : Except Stop α} (ran : action.run machine = (result, after)) : after = machine := by
  have same := observes machine
  rw [ran] at same
  exact same

theorem bind {action : Run α} {next : α → Run β} (first : Observes action)
    (second : ∀ value, Observes (next value)) : Observes (action >>= next) := by
  intro machine
  rw [run_bind]
  cases ran : action.run machine with
  | mk result after =>
      cases first.after_eq ran
      cases result with
      | error stop => rfl
      | ok value => exact second value machine

theorem pure (value : α) : Observes (pure value) := fun _ => rfl

theorem check (result : Except RuntimeError α) : Observes (check result) := fun _ => by
  cases result <;> rfl

theorem findVariable (name : String) : Observes (findVariable name) := fun machine => by
  simp only [Run.findVariable, ExceptT.run, ExceptT.mk]
  split <;> rfl

theorem findFunction (position : Nat) (name : String) (arity : Nat) :
    Observes (findFunction position name arity) := fun machine => by
  simp only [Run.findFunction, ExceptT.run, ExceptT.mk]
  split <;> rfl

theorem readCell (number : Nat) : Observes (readCell number) := fun _ => rfl

theorem equal (left right : Value) : Observes (equal left right) := fun _ => rfl

theorem locate (container offset : Value) : Observes (locate container offset) :=
  (check _).bind fun _ => (check _).bind fun _ => bind (fun _ => rfl) fun _ =>
    (check _).bind fun _ => pure _

theorem readElement (container offset : Value) : Observes (readElement container offset) :=
  (locate _ _).bind fun _ => bind (fun _ => rfl) fun _ => pure _

theorem mutableVariable (name : String) : Observes (Expr.assign.mutableVariable name) := by
  apply (findVariable name).bind
  intro target
  split
  · exact pure _
  · exact fun _ => rfl

end Run.Observes

/-! ## Actions that change no list -/

def Run.KeepsLists (action : Run α) (machine : Machine) : Prop :=
  (action.run machine).2.memory.lists = machine.memory.lists

namespace Run.KeepsLists

theorem of_observes {action : Run α} (observes : action.Observes) (machine : Machine) :
    action.KeepsLists machine := by
  rw [KeepsLists, observes machine]

theorem bind {action : Run α} {next : α → Run β} {machine : Machine}
    (first : action.KeepsLists machine)
    (rest : ∀ value after, action.run machine = (.ok value, after) →
      (next value).KeepsLists after) : (action >>= next).KeepsLists machine := by
  rw [KeepsLists, run_bind]
  rw [KeepsLists] at first
  cases ran : action.run machine with
  | mk result after =>
      rw [ran] at first
      cases result with
      | error stop => exact first
      | ok value => exact (rest value after ran).trans first

end Run.KeepsLists

theorem Run.writeElement_after (container offset value : Value) (machine : Machine) :
    ((Run.writeElement container offset value).run machine).2 = machine ∨
      ∃ id index, ((Run.writeElement container offset value).run machine).2 =
        { machine with memory := machine.memory.setElement id index value } := by
  rw [Run.writeElement, Run.run_bind]
  cases ran : (Run.locate container offset).run machine with
  | mk result after =>
      cases (Run.Observes.locate container offset).after_eq ran
      cases result with
      | error stop => exact .inl rfl
      | ok located => exact .inr ⟨located.1, located.2, rfl⟩

theorem Run.after_bind_pure (action : Run α) (value : β) (machine : Machine) :
    ((action >>= fun _ => pure value).run machine).2 = (action.run machine).2 := by
  rw [Run.run_bind]
  cases action.run machine with
  | mk result after => cases result <;> rfl

theorem Expr.mutableVariable_eq_ok {name : String} {machine after : Machine}
    {target : Machine.Variable}
    (ran : (Expr.assign.mutableVariable name).run machine = (.ok target, after)) :
    machine.scopes.lookup machine.current name = some target ∧ target.isMutable = true := by
  rw [Expr.assign.mutableVariable, Run.run_bind] at ran
  cases looked : machine.scopes.lookup machine.current name with
  | none =>
      have missing : (Run.findVariable name).run machine =
          (.error (.fault (.undefinedVariable name)), machine) := by
        simp only [Run.findVariable, ExceptT.run, ExceptT.mk, looked]
      rw [missing] at ran
      cases ran
  | some known =>
      have found : (Run.findVariable name).run machine = (.ok known, machine) := by
        simp only [Run.findVariable, ExceptT.run, ExceptT.mk, looked]
      rw [found] at ran
      dsimp only at ran
      split at ran
      · cases ran
        exact ⟨rfl, by assumption⟩
      · cases ran

theorem Expr.length_of_evaluateAll {invoke : Invoke} {expressions : List Expr}
    {machine after : Machine} {values : List Value}
    (ran : (Expr.evaluateAll invoke expressions).run machine = (.ok values, after)) :
    values.length = expressions.length := by
  induction expressions generalizing machine after values with
  | nil =>
      cases ran
      rfl
  | cons head tail induction =>
      rw [Expr.evaluateAll, Run.run_bind] at ran
      split at ran
      · rw [Run.run_bind] at ran
        split at ran
        · rename_i rest _ others
          cases ran
          exact congrArg Nat.succ (induction others)
        · cases ran
      · cases ran

theorem Run.findFunction_eq_ok {position : Nat} {name : String} {arity : Nat}
    {machine after : Machine} {function : Machine.Function}
    (ran : (Run.findFunction position name arity).run machine = (.ok function, after)) :
    machine.scopes.lookupFunction position name arity = some function := by
  simp only [Run.findFunction, ExceptT.run, ExceptT.mk] at ran
  split at ran
  · cases ran
    assumption
  · cases ran

theorem Run.Declares.current_eq {names : List String} {action : Run α}
    (declares : Declares names action) {machine after : Machine} {result : Except Stop α}
    (ran : action.run machine = (result, after)) : after.current = machine.current :=
  (declares.framed ran).current

namespace Moment

namespace Linked

variable {whole part : Moment} {machine middle last : Machine} {moments : List Moment}
  {action : Run α} {next : α → Run β} {following : α → Machine → List Moment}

theorem prepend (changes : whole.Changes machine middle)
    (linked : whole.Linked middle moments last) : whole.Linked machine moments last := by
  cases moments with
  | nil => exact changes.trans linked
  | cons part rest => exact ⟨changes.trans linked.1, linked.2⟩

theorem single (starts : whole.Changes machine part.machine) (begins : whole.Begins part)
    (ends : whole.Changes part.after last) : whole.Linked machine [part] last :=
  ⟨starts, begins, ends⟩

theorem bind (changes : whole.Changes machine (action.run machine).2)
    (rest : ∀ value after, action.run machine = (.ok value, after) →
      whole.Linked after (following value after) ((next value).run after).2) :
    whole.Linked machine (action.followedBy machine following)
      ((action >>= next).run machine).2 := by
  rw [Run.run_bind, Run.followedBy]
  cases ran : action.run machine with
  | mk result after =>
      rw [ran] at changes
      cases result with
      | error stop => exact changes
      | ok value => exact (rest value after ran).prepend changes

theorem bind_observes (observes : action.Observes)
    (rest : ∀ value, action.run machine = (.ok value, machine) →
      whole.Linked machine (following value machine) ((next value).run machine).2) :
    whole.Linked machine (action.followedBy machine following)
      ((action >>= next).run machine).2 := by
  apply bind
  · rw [observes machine]
  · intro value after ran
    cases observes.after_eq ran
    exact rest value ran

theorem cons_bind (starts : whole.Changes machine part.machine) (begins : whole.Begins part)
    (ends : whole.Changes part.after (action.run machine).2)
    (rest : ∀ value after, action.run machine = (.ok value, after) →
      whole.Linked after (following value after) ((next value).run after).2) :
    whole.Linked machine (part :: action.followedBy machine following)
      ((action >>= next).run machine).2 := by
  refine ⟨starts, begins, ?_⟩
  rw [Run.run_bind, Run.followedBy]
  cases ran : action.run machine with
  | mk result after =>
      rw [ran] at ends
      cases result with
      | error stop => exact ends
      | ok value => exact (rest value after ran).prepend ends

theorem single_bind (starts : whole.Changes machine part.machine) (begins : whole.Begins part)
    (ends : whole.Changes part.after (action.run machine).2)
    (rest : ∀ value after, action.run machine = (.ok value, after) →
      whole.Changes after ((next value).run after).2) :
    whole.Linked machine [part] ((action >>= next).run machine).2 := by
  refine ⟨starts, begins, ?_⟩
  rw [Run.run_bind]
  cases ran : action.run machine with
  | mk result after =>
      rw [ran] at ends
      cases result with
      | error stop => exact ends
      | ok value => exact ends.trans (rest value after ran)

end Linked

end Moment

end Plc
