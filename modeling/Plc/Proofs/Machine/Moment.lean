import Plc.Proofs.Machine.Frame

/-! The moments of a run. A run is made of activities that are made of other
activities, each starting at some machine; a moment is an activity with the
machine it starts at. The parts of a moment are the activities begun directly by
it, in their order, and a run passes through a moment when it is reached by going
from parts to parts. -/

namespace Plc

inductive Declaration where
  /-- A global or a statement, with the type and the first value it states. -/
  | plain (typeName : Option String) (value : Option Expr)
  /-- A parameter of the function with that name and arity. -/
  | parameter (function : String) (arity index : Nat)

inductive Activity where
  | evaluate (value : Expr)
  | evaluateAll (values : List Expr)
  | execute (statement : Stmt)
  | executeAll (statements : List Stmt)
  /-- Looking for the case that equals `value`. -/
  | select (value : Value) (cases : List Case)
  /-- A loop that may take fewer than `rounds` more rounds. -/
  | iterate (condition : Expr) (body : List Stmt) (rounds : Nat)
  | invoke (function : Machine.Function) (arguments : List Value)
  /-- Defining the parameters of a function, from the one at `index` on. -/
  | bind (signature : Signature) (index position : Nat) (bindings : List (String × Value))
  | define (declaration : Declaration) (position : Nat) (name : String) (isMutable : Bool)
      (value : Value)
  | defineGlobals (declarations : List Global)
  | run (program : Program)

/-- The name that is looked up when the expression is evaluated or assigned to. -/
def Expr.read? : Expr → Option (Node × String)
  | .access node name | .element node name _ => some (node, name)
  | _ => none

/-- An activity that starts at `machine`, with the bound on its calls and loops. -/
structure Moment where
  bound : Nat
  activity : Activity
  machine : Machine

def Run.followedBy (action : Run α) (machine : Machine) (next : α → Machine → List Moment) :
    List Moment :=
  match action.run machine with
  | (.ok value, after) => next value after
  | (.error _, _) => []

theorem Run.mem_followedBy {action : Run α} {machine : Machine}
    {next : α → Machine → List Moment} {part : Moment}
    (member : part ∈ action.followedBy machine next) :
    ∃ value after, action.run machine = (.ok value, after) ∧ part ∈ next value after := by
  unfold Run.followedBy at member
  split at member
  · exact ⟨_, _, by assumption, member⟩
  · cases member

theorem Run.followedBy_eq {action : Run α} {machine after : Machine} {value : α}
    (ran : action.run machine = (.ok value, after)) (next : α → Machine → List Moment) :
    action.followedBy machine next = next value after := by
  rw [followedBy, ran]

namespace Moment

def block (bound : Nat) (machine : Machine) (body : List Stmt) : Moment :=
  ⟨bound, .executeAll body,
    { (machine.child machine.current).2 with current := (machine.child machine.current).1 }⟩

def initialParts (bound : Nat) (machine : Machine) : Option Expr → List Moment
  | some value => [⟨bound, .evaluate value, machine⟩]
  | none => []

def evaluateParts (bound : Nat) (machine : Machine) : Expr → List Moment
  | .literal _ _ | .access _ _ => []
  | .group _ inner => [⟨bound, .evaluate inner, machine⟩]
  | .binary _ _ left right =>
      ⟨bound, .evaluate left, machine⟩ ::
        (left.evaluate (Machine.invoke bound)).followedBy machine fun _ machine =>
          [⟨bound, .evaluate right, machine⟩]
  | .element _ _ index => [⟨bound, .evaluate index, machine⟩]
  | .call _ name arguments =>
      ⟨bound, .evaluateAll arguments, machine⟩ ::
        (Expr.evaluateAll (Machine.invoke bound) arguments).followedBy machine
          fun values machine =>
            (Run.findFunction machine.current name values.length).followedBy machine
              fun function machine => [⟨bound, .invoke function values, machine⟩]
  | .list _ elements => [⟨bound, .evaluateAll elements, machine⟩]

def assignParts (bound : Nat) (machine : Machine) (value : Expr) : Expr → List Moment
  | .access _ name =>
      (Expr.assign.mutableVariable name).followedBy machine fun _ machine =>
        [⟨bound, .evaluate value, machine⟩]
  | .element _ name index =>
      (Expr.assign.mutableVariable name).followedBy machine fun _ machine =>
        ⟨bound, .evaluate index, machine⟩ ::
          (index.evaluate (Machine.invoke bound)).followedBy machine fun _ machine =>
            [⟨bound, .evaluate value, machine⟩]
  | _ => []

def executeParts (bound : Nat) (machine : Machine) : Stmt → List Moment
  | .expression value | .returns value => [⟨bound, .evaluate value, machine⟩]
  | .declaration _ name typeName value =>
      initialParts bound machine value ++
        (Expr.evaluateInitial (Machine.invoke bound) value).followedBy machine
          fun initial machine =>
            [⟨bound, .define (.plain typeName value) machine.current name true initial,
              machine⟩]
  | .assignment receiver value => assignParts bound machine value receiver
  | .conditional condition whenTrue whenFalse =>
      ⟨bound, .evaluate condition, machine⟩ ::
        (condition.evaluate (Machine.invoke bound)).followedBy machine fun value machine =>
          (Run.check value.asBoolean).followedBy machine fun holds machine =>
            [block bound machine (if holds then whenTrue else whenFalse)]
  | .switch condition cases =>
      ⟨bound, .evaluate condition, machine⟩ ::
        (condition.evaluate (Machine.invoke bound)).followedBy machine fun value machine =>
          [⟨bound, .select value cases, machine⟩]
  | .loop condition body => [⟨bound, .iterate condition body bound, machine⟩]

def selectParts (bound : Nat) (machine : Machine) (value : Value) : List Case → List Moment
  | [] => []
  | .mk none body :: _ => [block bound machine body]
  | .mk (some test) body :: tail =>
      ⟨bound, .evaluate test, machine⟩ ::
        (test.evaluate (Machine.invoke bound)).followedBy machine fun tested machine =>
          (Run.equal tested value).followedBy machine fun same machine =>
            [if same then block bound machine body else ⟨bound, .select value tail, machine⟩]

def iterateParts (bound : Nat) (machine : Machine) (condition : Expr) (body : List Stmt) :
    Nat → List Moment
  | 0 => []
  | rounds + 1 =>
      ⟨bound, .evaluate condition, machine⟩ ::
        (condition.evaluate (Machine.invoke bound)).followedBy machine fun value machine =>
          (Run.check value.asBoolean).followedBy machine fun again machine =>
            if again then
              block bound machine body ::
                (Run.inChild (Stmt.executeAll (Machine.invoke bound) bound body)).followedBy
                  machine fun flow machine =>
                    match flow with
                    | .normal => [⟨bound, .iterate condition body rounds, machine⟩]
                    | .returned _ => []
            else []

def invokeParts (machine : Machine) (function : Machine.Function) (arguments : List Value) :
    Nat → List Moment
  | 0 => []
  | bound + 1 =>
      match function.callable with
      | .native _ | .signature => []
      | .declared parameters body closure =>
          if machine.scopes.places.size ≤ closure then []
          else
            let scope := (machine.child closure).1
            let machine := (machine.child closure).2
            ⟨bound, .bind function.signature 0 scope (parameters.zip arguments), machine⟩ ::
              (Run.defineAll scope (parameters.zip arguments)).followedBy machine
                fun _ machine =>
                  [⟨bound, .executeAll body, { machine with current := scope }⟩]

/-- The activities that a moment directly begins. -/
def parts : Moment → List Moment
  | ⟨bound, .evaluate value, machine⟩ => evaluateParts bound machine value
  | ⟨_, .evaluateAll [], _⟩ => []
  | ⟨bound, .evaluateAll (head :: tail), machine⟩ =>
      ⟨bound, .evaluate head, machine⟩ ::
        (head.evaluate (Machine.invoke bound)).followedBy machine fun _ machine =>
          [⟨bound, .evaluateAll tail, machine⟩]
  | ⟨bound, .execute statement, machine⟩ => executeParts bound machine statement
  | ⟨_, .executeAll [], _⟩ => []
  | ⟨bound, .executeAll (head :: tail), machine⟩ =>
      ⟨bound, .execute head, machine⟩ ::
        (head.execute (Machine.invoke bound) bound).followedBy machine fun flow machine =>
          match flow with
          | .normal => [⟨bound, .executeAll tail, machine⟩]
          | .returned _ => []
  | ⟨bound, .select value cases, machine⟩ => selectParts bound machine value cases
  | ⟨bound, .iterate condition body rounds, machine⟩ =>
      iterateParts bound machine condition body rounds
  | ⟨bound, .invoke function arguments, machine⟩ =>
      invokeParts machine function arguments bound
  | ⟨_, .bind _ _ _ [], _⟩ => []
  | ⟨bound, .bind signature index position ((name, value) :: rest), machine⟩ =>
      ⟨bound, .define (.parameter signature.name signature.arity index) position name true value,
        machine⟩ ::
        (Run.define position name true value).followedBy machine fun _ machine =>
          [⟨bound, .bind signature (index + 1) position rest, machine⟩]
  | ⟨_, .define _ _ _ _ _, _⟩ => []
  | ⟨_, .defineGlobals [], _⟩ => []
  | ⟨bound, .defineGlobals (head :: tail), machine⟩ =>
      initialParts bound machine head.value ++
        (Expr.evaluateInitial (Machine.invoke bound) head.value).followedBy machine
          fun value machine =>
            ⟨bound, .define (.plain head.typeName head.value) Machine.global head.name
              head.isMutable value, machine⟩ ::
              (Run.define Machine.global head.name head.isMutable value).followedBy machine
                fun _ machine => [⟨bound, .defineGlobals tail, machine⟩]
  | ⟨bound, .run program, machine⟩ =>
      ⟨bound, .defineGlobals program.globals, machine⟩ ::
        (program.globals.forM (Global.define bound)).followedBy machine fun _ machine =>
          (program.procedures.forM Procedure.define).followedBy machine fun _ machine =>
            (Run.findFunction Machine.global "main" 0).followedBy machine fun function machine =>
              [⟨bound, .invoke function [], machine⟩]

theorem parts_of_define {moment : Moment} {declaration : Declaration} {position : Nat}
    {name : String} {isMutable : Bool} {value : Value}
    (defines : moment.activity = .define declaration position name isMutable value) :
    moment.parts = [] := by
  rcases moment with ⟨bound, activity, machine⟩
  cases defines
  rfl

def after : Moment → Machine
  | ⟨bound, .evaluate value, machine⟩ =>
      ((value.evaluate (Machine.invoke bound)).run machine).2
  | ⟨bound, .evaluateAll values, machine⟩ =>
      ((Expr.evaluateAll (Machine.invoke bound) values).run machine).2
  | ⟨bound, .execute statement, machine⟩ =>
      ((statement.execute (Machine.invoke bound) bound).run machine).2
  | ⟨bound, .executeAll statements, machine⟩ =>
      ((Stmt.executeAll (Machine.invoke bound) bound statements).run machine).2
  | ⟨bound, .select value cases, machine⟩ =>
      ((Case.executeAll (Machine.invoke bound) bound value cases).run machine).2
  | ⟨bound, .iterate condition body rounds, machine⟩ =>
      ((Run.repeatWhile (do Run.check (← condition.evaluate (Machine.invoke bound)).asBoolean)
        (Run.inChild (Stmt.executeAll (Machine.invoke bound) bound body)) rounds).run
          machine).2
  | ⟨bound, .invoke function arguments, machine⟩ =>
      ((Machine.invoke bound function arguments).run machine).2
  | ⟨_, .bind _ _ position bindings, machine⟩ =>
      ((Run.defineAll position bindings).run machine).2
  | ⟨_, .define _ position name isMutable value, machine⟩ =>
      ((Run.define position name isMutable value).run machine).2
  | ⟨bound, .defineGlobals declarations, machine⟩ =>
      ((declarations.forM (Global.define bound)).run machine).2
  | ⟨bound, .run program, machine⟩ => ((program.run bound).run machine).2

/-- A run that is at `whole` passes through a moment inside it. -/
inductive Includes : Moment → Moment → Prop where
  | self (moment : Moment) : Includes moment moment
  | inside {whole part inner : Moment} (member : part ∈ whole.parts)
      (includes : Includes part inner) : Includes whole inner

/-- The moment defines a variable for the declaration, with the cell of that number. -/
def Creates (moment : Moment) (declaration : Declaration) (cell : Nat) : Prop :=
  ∃ position name isMutable value,
    moment.activity = .define declaration position name isMutable value ∧
    cell = moment.machine.cells.size ∧ cell < moment.after.cells.size

/-- The moment assigns to an element of the list with that number, which is the value of
the variable that the receiver names. -/
def Writes (moment : Moment) (receiver value : Expr) (id : Nat) : Prop :=
  ∃ node name index target after, receiver = .element node name index ∧
    moment.activity = .execute (.assignment receiver value) ∧
    moment.machine.scopes.lookup moment.machine.current name = some target ∧
    ((Stmt.assignment receiver value).execute (Machine.invoke moment.bound) moment.bound).run
      moment.machine = (.ok .normal, after) ∧
    after.cell target.cell = .list id

/-- At `machine`, the moment looks up the name of the expression. The index of an element is
evaluated before. -/
inductive Reads : Moment → Expr → Machine → Prop where
  | access {bound : Nat} {node : Node} {name : String} {machine : Machine} :
      Reads ⟨bound, .evaluate (.access node name), machine⟩ (.access node name) machine
  | element {bound : Nat} {node : Node} {name : String} {index : Expr} {offset : Value}
      {machine after : Machine}
      (evaluates : (index.evaluate (Machine.invoke bound)).run machine = (.ok offset, after)) :
      Reads ⟨bound, .evaluate (.element node name index), machine⟩ (.element node name index) after
  | assignment {bound : Nat} {receiver value : Expr} {machine : Machine} :
      Reads ⟨bound, .execute (.assignment receiver value), machine⟩ receiver machine

/-- Inside of a function, `RETURN` is looked up for the expression, and the global variable with
that cell is found. -/
def FindsGlobal (moment : Moment) (term : Expr) (cell : Nat) : Prop :=
  ∃ node machine found, term.read? = some (node, "RETURN") ∧ moment.Reads term machine ∧
    machine.current ≠ Machine.global ∧
    machine.scopes.lookup machine.current "RETURN" = some found ∧
    (machine.scopes.scope Machine.global).lookup "RETURN" = some found ∧ found.cell = cell

end Moment

end Plc
