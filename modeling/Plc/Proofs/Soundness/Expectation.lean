import Plc.Proofs.Soundness.Agreement

/-! What the moments of a run make sure of. Each moment is entered with a machine
that agrees with the context of what it does; if its parts keep to what is said of
them, so does the moment, and all moments in it are sound. -/

namespace Plc

open Typing

namespace Setting

/-! ## The machine before and after a moment -/

/-- What holds of the machine in whatever scope it is. -/
structure Steady (setting : Setting) (bodies : Context → Prop) (machine : Machine) : Prop where
  store : setting.StoreFits machine
  present : Machine.global < machine.scopes.places.size
  outermost : machine.scopes.outer Machine.global = []
  known : ∀ context, bodies context → setting.Agrees bodies context machine Machine.global

/-- The machine is ready for what is typed in the context. -/
structure Ready (setting : Setting) (bodies : Context → Prop) (context : Context)
    (machine : Machine) : Prop extends setting.Steady bodies machine where
  agrees : setting.Agrees bodies context machine machine.current

/-- A run does not stop for want of a name, nor, where errors are followed, of a type. -/
def Halts (setting : Setting) (stop : Stop) (after : Machine) : Prop :=
  (∀ error, stop = .fault error →
    error.isNaming = false ∧ (setting.strict.errors → error.isTyping = false)) ∧
  setting.StoreFits after

def Gives (setting : Setting) (type : Ty) (value : Value) (after : Machine) : Prop :=
  (setting.strict → setting.Suits type value) ∧ setting.StoreFits after

def GivesAll (setting : Setting) (types : List Ty) (values : List Value) (after : Machine) :
    Prop :=
  values.length = types.length ∧
    (setting.strict → ∀ pair ∈ types.zip values, setting.Suits pair.1 pair.2) ∧
    setting.StoreFits after

def GivesList (setting : Setting) (type : Ty) (value : Value) (after : Machine) : Prop :=
  (∃ id, value = .list id ∧ (setting.strict → setting.strict.lists[id]? = some type)) ∧
    setting.StoreFits after

/-- An element of the list that the cell holds was replaced by a value that suits the
type. -/
def Replaced (setting : Setting) (cell : Nat) (type : Ty) (after : Machine) : Prop :=
  ∃ before id index value, setting.StoreFits before ∧
    (setting.strict → cell < before.cells.size) ∧ before.cell cell = .list id ∧
    (setting.strict → setting.Suits type value) ∧
    after = { before with memory := before.memory.setElement id index value }

/-- Statements of a function with the given result end, or return from it. Some of
them `always` return. -/
def Closes (setting : Setting) (result : Ty) (always : Bool) (flow : Flow) (after : Machine) :
    Prop :=
  (match flow with
    | .normal => always = false
    | .returned value => setting.strict → setting.Suits result value) ∧
  setting.StoreFits after

/-- A list with elements of these types is made where no function of the program is
known yet, and its elements are to have the type that the next list has. -/
structure ListFits (setting : Setting) (bodies : Context → Prop) (machine : Machine)
    (node : Node) (types : List Ty) (type : Ty) : Prop where
  natives : ∀ context, ¬bodies context
  note : setting.annotations.Notes node.id type
  accepts : ∀ actual ∈ types, type.accepts actual = true
  next : setting.strict.lists[machine.memory.lists.size]? = some type

/-- The value of the expression is expected to have the type. -/
inductive Evaluates (setting : Setting) (bodies : Context → Prop) (context : Context)
    (machine : Machine) : Expr → Ty → Prop where
  | typed {value : Expr} {type : Ty}
      (typed : value.HasType setting.annotations.Notes context type) :
      Evaluates setting bodies context machine value type
  | list {node : Node} {elements : List Expr} {types : List Ty} {type : Ty}
      (typed : Expr.HaveTypes setting.annotations.Notes context elements types)
      (fits : setting.strict → setting.ListFits bodies machine node types type) :
      Evaluates setting bodies context machine (.list node elements) type

/-- The lists that are not made yet are those of the declarations. -/
def Awaits (setting : Setting) (declarations : List Global) (machine : Machine) : Prop :=
  setting.strict.lists.drop machine.memory.lists.size =
    declarations.filterMap (Global.elementType? setting.annotations)

/-! ## Moments -/

/-- The value of an expression is one that its noted type admits, and what is defined
has a type. -/
def Shows (setting : Setting) (moment : Moment) : Prop :=
  match moment.activity with
  | .evaluate expression => ∀ value after,
      (expression.evaluate (Machine.invoke moment.bound)).run moment.machine =
        (.ok value, after) →
      ∃ type, setting.annotations.Notes expression.node.id type ∧
        type.admits value.kind = true
  | .define declaration _ _ _ _ => ∃ type,
      setting.program.declaredType setting.annotations declaration = some type
  | _ => True

/-- A list that is made has elements of the type that its number says. -/
def Makes (setting : Setting) (moment : Moment) : Prop :=
  match moment.activity with
  | .evaluate (.list node elements) => ∀ value after,
      ((Expr.list node elements).evaluate (Machine.invoke moment.bound)).run moment.machine =
        (.ok value, after) →
      ∃ id type, value = .list id ∧ setting.annotations.Notes node.id type ∧
        setting.strict.lists[id]? = some type
  | _ => True

/-- At the start and at the end of the moment, cells and lists hold what they should. -/
structure Good (setting : Setting) (moment : Moment) : Prop where
  before : setting.StoreFits moment.machine
  after : setting.StoreFits moment.after
  shows : setting.strict.errors → setting.Shows moment
  makes : setting.strict → setting.Makes moment

def Sound (setting : Setting) (moment : Moment) : Prop :=
  ∀ inner, moment.Includes inner → setting.Good inner

/-- The moment is sound, and the action that it stands for ends as expected. -/
def Passes (setting : Setting) (moment : Moment) (action : Run α)
    (onValue : α → Machine → Prop) : Prop :=
  setting.Sound moment ∧ action.Ensures moment.machine onValue setting.Halts

/-- What is expected of a moment that is entered with a machine that is ready for it. -/
def Meets (setting : Setting) (moment : Moment) : Prop :=
  let notes := setting.annotations.Notes
  let invoke := Machine.invoke moment.bound
  match moment.activity with
  | .evaluate value => ∀ bodies context type,
      setting.Evaluates bodies context moment.machine value type →
      setting.TermsFit value.subterms →
      setting.Ready bodies context moment.machine →
        setting.Passes moment (value.evaluate invoke) (setting.Gives type)
  | .evaluateAll values => ∀ bodies context types,
      Expr.HaveTypes notes context values types →
      setting.TermsFit (Expr.subtermsOfAll values) →
      setting.Ready bodies context moment.machine →
        setting.Passes moment (Expr.evaluateAll invoke values) (setting.GivesAll types)
  | .execute statement => ∀ bodies context extended result,
      statement.Typed notes context extended → setting.TermsFit statement.subterms →
      setting.StatementsFit result statement.nested →
      setting.Ready bodies context moment.machine → moment.machine.current ≠ Machine.global →
        setting.Passes moment (statement.execute invoke moment.bound) fun flow after =>
          setting.Closes result statement.returnsAlways flow after ∧
            (flow = .normal → setting.Agrees bodies extended after after.current)
  | .executeAll statements => ∀ bodies context result,
      Stmt.AllTyped notes context statements →
      setting.TermsFit (Stmt.subtermsOfAll statements) →
      setting.StatementsFit result (Stmt.nestedInAll statements) →
      setting.Ready bodies context moment.machine → moment.machine.current ≠ Machine.global →
        setting.Passes moment (Stmt.executeAll invoke moment.bound statements)
          (setting.Closes result (Stmt.blockReturns statements))
  | .select value cases => ∀ bodies context type result,
      Stmt.CasesTyped notes context type cases →
      setting.TermsFit (Case.subtermsOfAll cases) →
      setting.StatementsFit result (Case.nestedInAll cases) →
      setting.Ready bodies context moment.machine →
        setting.Passes moment (Case.executeAll invoke moment.bound value cases)
          (setting.Closes result (!cases.isEmpty && Case.allReturn cases))
  | .iterate condition body rounds => ∀ bodies context result,
      condition.HasType notes context .boolean → Stmt.AllTyped notes context.nest body →
      setting.TermsFit (condition.subterms ++ Stmt.subtermsOfAll body) →
      setting.StatementsFit result (Stmt.nestedInAll body) →
      setting.Ready bodies context moment.machine →
        setting.Passes moment
          (Run.repeatWhile (do Run.check (← condition.evaluate invoke).asBoolean)
            (Run.inChild (Stmt.executeAll invoke moment.bound body)) rounds)
          (setting.Closes result false)
  | .invoke function arguments => ∀ bodies signature,
      setting.Realises bodies function signature →
      arguments.length = signature.parameters.length →
      (setting.strict → ∀ pair ∈ signature.parameters.zip arguments,
        setting.Suits pair.1 pair.2) →
      setting.Steady bodies moment.machine →
        setting.Passes moment (invoke function arguments) (setting.Gives signature.result)
  | .bind signature index position bindings => ∀ bodies context extended types,
      declareParameters context ((bindings.map (·.1)).zip types) = .ok extended →
      bindings.length = types.length →
      (setting.strict → ∀ pair ∈ types.zip (bindings.map (·.2)),
        setting.Suits pair.1 pair.2) →
      (setting.strict → ∀ offset type, types[offset]? = some type →
        setting.program.declaredType setting.annotations
          (.parameter signature.name signature.arity (index + offset)) = some type) →
      setting.Agrees bodies context moment.machine position →
      setting.StoreFits moment.machine →
        setting.Passes moment (Run.defineAll position bindings) fun _ after =>
          setting.Agrees bodies extended after position ∧ setting.StoreFits after
  | .define declaration position name isMutable value => ∀ bodies context extended type,
      context.declare? ⟨name, type, isMutable⟩ = some extended →
      (setting.strict → setting.Suits type value ∧
        setting.program.declaredType setting.annotations declaration = some type) →
      setting.Agrees bodies context moment.machine position →
      setting.StoreFits moment.machine →
        setting.Passes moment (Run.define position name isMutable value) fun _ after =>
          setting.Agrees bodies extended after position ∧ setting.StoreFits after
  | .defineGlobals declarations => ∀ context extended,
      Sequence (Global.Typed notes) context declarations extended →
      setting.TermsFit (declarations.flatMap Global.subterms) →
      (setting.strict → setting.GlobalsFit declarations ∧
        setting.Awaits declarations moment.machine) →
      setting.Ready (fun _ => False) context moment.machine →
      moment.machine.current = Machine.global →
        setting.Passes moment (declarations.forM (Global.define moment.bound)) fun _ after =>
          setting.Ready (fun _ => False) extended after ∧ after.current = Machine.global
  | .run _ => True

/-! ## Keeping the machine ready -/

variable {setting : Setting} {bodies : Context → Prop} {context : Context}
  {machine after : Machine}

theorem Steady.framed {gains : Nat → String → Prop} (steady : setting.Steady bodies machine)
    (framed : machine.Framed gains after) (untouched : ∀ name, ¬gains Machine.global name)
    (store : setting.StoreFits after) : setting.Steady bodies after where
  store := store
  present := Nat.lt_of_lt_of_le steady.present framed.places
  outermost := (framed.outer _ steady.present).trans steady.outermost
  known context member := by
    apply (steady.known context member).framed framed
    intro place onPath name
    rw [Scope.Tree.path, steady.outermost] at onPath
    rw [List.mem_singleton.mp onPath]
    exact untouched name

theorem Steady.atScope (steady : setting.Steady bodies machine) (current : Nat) :
    setting.Steady bodies { machine with current } :=
  ⟨steady.store.of_eq rfl rfl, steady.present, steady.outermost,
    fun context member => (steady.known context member).atScope current⟩

theorem Agrees.run {action : Run α} {result : Except Stop α}
    (agrees : setting.Agrees bodies context machine machine.current)
    (declares : action.Declares []) (ran : action.run machine = (result, after)) :
    setting.Agrees bodies context after after.current := by
  have framed := declares.framed ran
  rw [framed.current]
  exact agrees.framed framed fun _ _ _ gained => List.not_mem_nil gained.2

theorem Ready.run {action : Run α} {result : Except Stop α}
    (ready : setting.Ready bodies context machine) (declares : action.Declares [])
    (ran : action.run machine = (result, after)) (store : setting.StoreFits after) :
    setting.Ready bodies context after := by
  have framed := declares.framed ran
  exact ⟨ready.toSteady.framed framed (fun name gained => List.not_mem_nil gained.2) store,
    ready.agrees.run declares ran⟩

theorem Ready.child (ready : setting.Ready bodies context machine) :
    setting.Ready bodies context.nest
      { (machine.child machine.current).2 with current := machine.scopes.places.size } := by
  have framed : machine.Framed (fun _ _ => False) (machine.child machine.current).2 :=
    .child machine machine.current
  have steady := ready.toSteady.framed framed (fun _ impossible => impossible)
    (ready.store.of_eq rfl rfl)
  exact ⟨steady.atScope _, ready.agrees.child.atScope _⟩

/-! ## From parts to wholes -/

/-- When the parts meet what is expected of them, they are sound, and the action that
is made of them ends as expected. -/
def Leads (setting : Setting) (parts : List Moment) (action : Run α) (machine : Machine)
    (onValue : α → Machine → Prop) : Prop :=
  (∀ part ∈ parts, setting.Meets part) →
    (∀ part ∈ parts, setting.Sound part) ∧ action.Ensures machine onValue setting.Halts

section

variable {action : Run α} {next : α → Run β} {parts : List Moment} {part : Moment}
  {following : α → Machine → List Moment} {onValue : α → Machine → Prop}
  {onNext : β → Machine → Prop}

theorem Leads.none (ensures : action.Ensures machine onValue setting.Halts) :
    setting.Leads [] action machine onValue :=
  fun _ => ⟨fun _ member => absurd member List.not_mem_nil, ensures⟩

theorem Leads.single
    (meets : setting.Meets part →
      setting.Sound part ∧ action.Ensures machine onValue setting.Halts) :
    setting.Leads [part] action machine onValue := by
  intro known
  have sound := meets (known part List.mem_cons_self)
  refine ⟨fun other member => ?_, sound.2⟩
  rw [List.mem_singleton.mp member]
  exact sound.1

theorem Leads.bind (first : setting.Leads parts action machine onValue)
    (rest : ∀ value after, action.run machine = (.ok value, after) → onValue value after →
      setting.Leads (following value after) (next value) after onNext) :
    setting.Leads (parts ++ action.followedBy machine following) (action >>= next) machine
      onNext := by
  intro known
  have start := first fun part member => known part (List.mem_append_left _ member)
  have later : ∀ value after, action.run machine = (.ok value, after) →
      (∀ part ∈ following value after, setting.Sound part) ∧
        (next value).Ensures after onNext setting.Halts := by
    intro value after ran
    apply rest value after ran (start.2.value ran)
    intro part member
    refine known part (List.mem_append_right _ ?_)
    simpa only [Run.followedBy, ran] using member
  refine ⟨fun part member => ?_, start.2.bind fun value after ran _ => (later value after ran).2⟩
  rcases List.mem_append.mp member with earlier | followed
  · exact start.1 part earlier
  · rcases Run.mem_followedBy followed with ⟨value, after, ran, member⟩
    exact (later value after ran).1 part member

theorem Leads.cons_bind
    (meets : setting.Meets part →
      setting.Sound part ∧ action.Ensures machine onValue setting.Halts)
    (rest : ∀ value after, action.run machine = (.ok value, after) → onValue value after →
      setting.Leads (following value after) (next value) after onNext) :
    setting.Leads (part :: action.followedBy machine following) (action >>= next) machine
      onNext :=
  (Leads.single meets).bind rest

theorem Leads.skip_bind (ensures : action.Ensures machine onValue setting.Halts)
    (rest : ∀ value after, action.run machine = (.ok value, after) → onValue value after →
      setting.Leads (following value after) (next value) after onNext) :
    setting.Leads (action.followedBy machine following) (action >>= next) machine onNext :=
  (Leads.none ensures).bind rest

theorem Leads.then (leads : setting.Leads parts action machine onValue)
    (rest : ∀ value after, action.run machine = (.ok value, after) → onValue value after →
      (next value).Ensures after onNext setting.Halts) :
    setting.Leads parts (action >>= next) machine onNext := fun known =>
  ⟨(leads known).1, (leads known).2.bind rest⟩

theorem Leads.single_bind
    (meets : setting.Meets part →
      setting.Sound part ∧ action.Ensures machine onValue setting.Halts)
    (rest : ∀ value after, action.run machine = (.ok value, after) → onValue value after →
      (next value).Ensures after onNext setting.Halts) :
    setting.Leads [part] (action >>= next) machine onNext :=
  (Leads.single meets).then rest

theorem Leads.mono {weaker : α → Machine → Prop}
    (leads : setting.Leads parts action machine onValue)
    (implies : ∀ value after, action.run machine = (.ok value, after) → onValue value after →
      weaker value after) : setting.Leads parts action machine weaker := fun known =>
  ⟨(leads known).1, (leads known).2.mono implies fun _ _ halts => halts⟩

/-- A moment is sound when its parts are and it is good itself. -/
theorem Leads.passes {moment : Moment} (known : ∀ part ∈ moment.parts, setting.Meets part)
    (leads : setting.Leads moment.parts action moment.machine onValue)
    (before : setting.StoreFits moment.machine)
    (ends : moment.after = (action.run moment.machine).2)
    (store : ∀ value after, onValue value after → setting.StoreFits after)
    (shows : setting.strict.errors → setting.Shows moment)
    (makes : setting.strict → setting.Makes moment) :
    setting.Passes moment action onValue := by
  have sound := leads known
  have after : setting.StoreFits (action.run moment.machine).2 := by
    cases ran : action.run moment.machine with
    | mk result after =>
        cases result with
        | ok value => exact store value after (sound.2.value ran)
        | error stop => exact (sound.2.stop ran).2
  refine ⟨fun inner included => ?_, sound.2⟩
  cases included with
  | self => exact ⟨before, ends ▸ after, shows, makes⟩
  | inside member included => exact sound.1 _ member inner included

end

end Setting

end Plc
