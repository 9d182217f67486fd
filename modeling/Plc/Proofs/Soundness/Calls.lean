import Plc.Proofs.Soundness.Statements

/-! Definitions and calls meet what is expected of them when their parts do, and so
does every moment of a run. -/

namespace Plc

open Typing

namespace Setting

variable {setting : Setting} {bodies : Context → Prop} {context : Context}
  {machine : Machine} {bound : Nat}

/-! ## Definitions -/

theorem define_meets {declaration : Declaration} {position : Nat} {name : String}
    {isMutable : Bool} {value : Value}
    (included : setting.start.Includes
      ⟨bound, .define declaration position name isMutable value, machine⟩) :
    setting.Meets ⟨bound, .define declaration position name isMutable value, machine⟩ := by
  intro bodies context extended type declares typed agrees store
  refine Leads.passes (fun _ member => absurd member List.not_mem_nil) (.none ?_) store rfl
    (fun _ _ given => given.2)
    (fun errors => ⟨type, (typed (setting.strict.exact errors).1).2⟩) fun _ => trivial
  rcases agrees.defines value declares with ⟨scope, defined, grown⟩
  have opened : (Run.define position name isMutable value).run machine =
      ((if (machine.defineVariable position name .any isMutable value).1 then .ok ()
        else .error (.fault (.redefinition name))),
        (machine.defineVariable position name .any isMutable value).2) := rfl
  -- the definition succeeds, so it is this moment that creates the cell
  have holds : setting.strict → setting.Holds machine.cells.size type := by
    intro strict
    refine ⟨_, declaration, included, ⟨position, name, isMutable, value, rfl, rfl, ?_⟩,
      (typed strict).2⟩
    show machine.cells.size <
      (machine.defineVariable position name .any isMutable value).2.cells.size
    rw [grown]
    simp
  rw [Run.Ensures, opened, grown]
  exact ⟨agrees.extend declares defined holds,
    store.push fun strict => ⟨type, holds strict, (typed strict).1⟩⟩

theorem bind_meets {signature : Signature} {index position : Nat}
    {bindings : List (String × Value)}
    (known : ∀ part ∈ Moment.parts ⟨bound, .bind signature index position bindings, machine⟩,
      setting.Meets part) :
    setting.Meets ⟨bound, .bind signature index position bindings, machine⟩ := by
  intro bodies context extended types declares length suits stated agrees store
  refine Leads.passes known ?_ store rfl (fun _ _ given => given.2) (fun _ => trivial)
    fun _ => trivial
  cases bindings with
  | nil =>
      cases declares
      exact .none (Run.ensures_pure ⟨agrees, store⟩)
  | cons head tail =>
      rcases head with ⟨name, value⟩
      cases types with
      | nil => cases length
      | cons type types =>
          have opened : declareParameters context ((name, type) ::
              (tail.map (·.1)).zip types) = .ok extended := declares
          rw [declareParameters] at opened
          split at opened
          · rename_i middle declared
            refine .cons_bind (fun meets => meets bodies context middle type declared
              (fun strict => ⟨suits strict _ List.mem_cons_self, stated strict 0 type rfl⟩)
              agrees store) fun _ after _ given => ?_
            refine .single fun meets => meets bodies middle extended types opened
              (Nat.succ.inj length)
              (fun strict pair member => suits strict pair (List.mem_cons_of_mem _ member))
              (fun strict offset other found => ?_) given.1 given.2
            have shifted := stated strict (offset + 1) other found
            rw [show index + (offset + 1) = index + 1 + offset by omega] at shifted
            exact shifted
          · cases opened

/-! ## Calls -/

theorem Leads.of_run_eq {action other : Run α} {parts : List Moment} {start : Machine}
    {onValue : α → Machine → Prop} (same : action.run machine = other.run start)
    (leads : setting.Leads parts other start onValue) :
    setting.Leads parts action machine onValue := by
  intro known
  have sound := leads known
  refine ⟨sound.1, ?_⟩
  have ensures := sound.2
  unfold Run.Ensures at ensures ⊢
  rw [same]
  exact ensures

theorem native_ensures {behaviour : Native} {arguments : List Value} {type : Ty}
    (faults : ∀ arguments memory error after,
      (behaviour arguments).run memory = (.error (.fault error), after) →
        error.isNaming = false ∧ (setting.strict.errors → error.isTyping = false))
    (gives : setting.strict → ∀ arguments memory result after,
      (behaviour arguments).run memory = (result, after) → after.lists = memory.lists ∧
        ∀ value, result = .ok value → setting.Suits type value)
    (store : setting.StoreFits machine) :
    (Run.onMemory (behaviour arguments)).Ensures machine (setting.Gives type) setting.Halts := by
  have opened : (Run.onMemory (behaviour arguments)).run machine =
      (((behaviour arguments).run machine.memory).1,
        { machine with memory := ((behaviour arguments).run machine.memory).2 }) := rfl
  rw [Run.Ensures, opened]
  cases ran : (behaviour arguments).run machine.memory with
  | mk result memory =>
      have kept : setting.StoreFits { machine with memory } := by
        by_cases strict : setting.strict
        · exact store.of_eq rfl (gives strict arguments machine.memory result memory ran).1
        · exact .of_lenient strict
      cases result with
      | ok value =>
          exact ⟨fun strict => (gives strict arguments machine.memory _ memory ran).2 value rfl,
            kept⟩
      | error stop =>
          refine ⟨fun error fault => ?_, kept⟩
          subst fault
          exact faults arguments machine.memory error memory ran

/-- The body of a function runs with its parameters and with nothing of the caller. -/
theorem body_leads {function : Machine.Function} {signature : Signature}
    {procedure : Procedure} {body : Context} {arguments : List Value}
    (signed : function.signature = Machine.untyped procedure.name procedure.parameters.length)
    (fits : setting.BodyFits bodies procedure signature context body)
    (length : arguments.length = signature.parameters.length)
    (suits : setting.strict → ∀ pair ∈ signature.parameters.zip arguments,
      setting.Suits pair.1 pair.2)
    (steady : setting.Steady bodies machine) :
    let scope := machine.scopes.places.size
    let start := (machine.child Machine.global).2
    let bindings := (procedure.parameters.map (·.name)).zip arguments
    setting.Leads
      (⟨bound, .bind function.signature 0 scope bindings, start⟩ ::
        (Run.defineAll scope bindings).followedBy start fun _ machine =>
          [⟨bound, .executeAll procedure.body, { machine with current := scope }⟩])
      (do
        Run.defineAll scope bindings
        match ← Run.inScope scope
          (Stmt.executeAll (Machine.invoke bound) bound procedure.body) with
        | .normal => return .nil
        | .returned value => return value : Run Value)
      start (setting.Gives signature.result) := by
  intro scope start bindings
  have apart : scope ≠ Machine.global := Nat.ne_of_gt steady.present
  have framed : machine.Framed (fun _ _ => False) start := .child machine Machine.global
  have entered := steady.framed framed (fun _ impossible => impossible)
    (steady.store.of_eq rfl rfl)
  have enough : (procedure.parameters.map (·.name)).length = arguments.length := by
    rw [List.length_map, length, fits.arity]
  have names : bindings.map (·.1) = procedure.parameters.map (·.name) :=
    List.map_fst_zip (Nat.le_of_eq enough)
  have values : bindings.map (·.2) = arguments := List.map_snd_zip (Nat.le_of_eq enough.symm)
  have agrees := (steady.known context fits.known).function steady.outermost signature.result
  refine .cons_bind (fun meets => meets bodies _ body signature.parameters ?_ ?_ ?_ ?_ agrees
    entered.store) fun _ ready ran given => ?_
  · rw [names]
    exact fits.opens
  · rw [← length, ← values, List.length_map]
  · rw [values]
    exact suits
  · intro strict offset type found
    rw [signed, Nat.zero_add]
    have stated := fits.parameters strict offset type found
    simpa [Machine.untyped, Signature.arity] using stated
  · have defined := Run.Declares.defineAll_framed scope bindings start
    rw [ran] at defined
    have steady := entered.framed defined (fun _ same => apart same.symm) given.2
    have ended : setting.Leads
        [⟨bound, .executeAll procedure.body, { ready with current := scope }⟩]
        (Run.inScope scope (Stmt.executeAll (Machine.invoke bound) bound procedure.body)) ready
        (setting.Closes signature.result (Stmt.blockReturns procedure.body)) := by
      refine .single fun meets => ?_
      have passes := meets bodies body signature.result fits.typed fits.termsFit
        fits.statementsFit ⟨steady.atScope scope, given.1.atScope scope⟩ apart
      refine ⟨passes.1, Run.ensures_inScope (passes.2.mono ?_ ?_)⟩
      · exact fun _ _ _ closes => ⟨closes.1, closes.2.of_eq rfl rfl⟩
      · exact fun _ _ halts => ⟨halts.1, halts.2.of_eq rfl rfl⟩
    apply ended.then
    intro flow after _ closes
    cases flow with
    | returned value => exact Run.ensures_pure closes
    | normal =>
        refine Run.ensures_pure ⟨fun strict => ?_, closes.2⟩
        rcases fits.returns strict with suits | always
        · exact suits
        · have never : Stmt.blockReturns procedure.body = false := closes.1
          rw [always] at never
          cases never

theorem invoke_meets {function : Machine.Function} {arguments : List Value}
    (known : ∀ part ∈ Moment.invokeParts machine function arguments bound,
      setting.Meets part) :
    setting.Meets ⟨bound, .invoke function arguments, machine⟩ := by
  intro bodies signature realises length suits steady
  refine Leads.passes known ?_ steady.store rfl (fun _ _ given => given.2) (fun _ => trivial)
    fun _ => trivial
  show setting.Leads (Moment.invokeParts machine function arguments bound) _ machine _
  cases bound with
  | zero => exact .none (halts_unfinished steady.store)
  | succ bound =>
      cases realises with
      | native callable faults gives =>
          simp only [Moment.invokeParts, Machine.invoke, callable]
          exact .none (native_ensures faults gives steady.store)
      | declared signed callable fits =>
          have attached : ¬machine.scopes.places.size ≤ Machine.global :=
            Nat.not_le_of_lt steady.present
          simp only [Moment.invokeParts, callable, if_neg attached]
          exact .of_run_eq (Moment.invoke_declared_run bound machine callable steady.present
            arguments) (body_leads signed fits length suits steady)

/-! ## Globals -/

theorem global_leads {declaration : Global} {declarations : List Global} {extended : Context}
    (typed : declaration.Typed setting.annotations.Notes context extended)
    (termsFit : setting.TermsFit declaration.subterms)
    (opens : setting.strict → setting.Opens declaration.typeName declaration.value)
    (awaits : setting.strict → setting.Awaits (declaration :: declarations) machine)
    (ready : setting.Ready (fun _ => False) context machine) :
    ∃ type, context.declare? ⟨declaration.name, type, declaration.isMutable⟩ = some extended ∧
      (setting.strict → setting.program.declaredType setting.annotations
        (.plain declaration.typeName declaration.value) = some type) ∧
      setting.Leads (Moment.initialParts bound machine declaration.value)
        (Expr.evaluateInitial (Machine.invoke bound) declaration.value) machine
        fun value after => setting.Gives type value after ∧
          (setting.strict → setting.Awaits declarations after) := by
  have natives : ∀ _ : Context, ¬False := fun _ impossible => impossible
  cases typed with
  | plain named initializes declares =>
      refine ⟨_, declares, fun _ => Program.declaredType_of_initializes named initializes,
        (initial_leads named initializes opens termsFit ready).mono ?_⟩
      intro value after ran given
      refine ⟨given, fun strict => ?_⟩
      have kept : (Expr.evaluateInitial (Machine.invoke bound) declaration.value).KeepsLists
          machine := initial_keepsLists strict natives initializes ready.agrees
      rw [Run.KeepsLists, ran] at kept
      have awaited := awaits strict
      rw [Awaits, List.filterMap_cons_none (Global.elementType?_eq_none initializes)] at awaited
      rw [Awaits, kept]
      exact awaited
  | @list node elements stated type isList named elementsTyped note declares =>
      rcases declaration with ⟨id, name, typeName, isMutable, value⟩
      cases isList
      rcases elementsTyped.haveTypes with ⟨types, haveTypes, accepts⟩
      have awaited : setting.strict → setting.strict.lists.drop machine.memory.lists.size =
          type :: declarations.filterMap (Global.elementType? setting.annotations) := by
        intro strict
        rw [awaits strict]
        exact List.filterMap_cons_some note
      have fits : setting.strict →
          setting.ListFits (fun _ => False) machine node types type := by
        intro strict
        refine ⟨natives, note, accepts, ?_⟩
        rw [← Nat.add_zero machine.memory.lists.size, ← List.getElem?_drop, awaited strict]
        rfl
      have leads : setting.Leads [⟨bound, .evaluate (.list node elements), machine⟩]
          ((Expr.list node elements).evaluate (Machine.invoke bound)) machine
          (setting.Gives type) :=
        .single fun meets => meets (fun _ => False) context type (.list haveTypes fits) termsFit
          ready
      refine ⟨type, declares, fun _ => Program.declaredType_of_elements named elementsTyped note,
        leads.mono fun value after ran given => ⟨given, fun strict => ?_⟩⟩
      rw [Awaits, lists_size_of_list strict natives haveTypes ready.agrees ran,
        ← List.drop_drop, awaited strict]
      rfl

theorem defineGlobals_meets {declarations : List Global}
    (known : ∀ part ∈ Moment.parts ⟨bound, .defineGlobals declarations, machine⟩,
      setting.Meets part) :
    setting.Meets ⟨bound, .defineGlobals declarations, machine⟩ := by
  intro context extended sequence termsFit fits ready current
  refine Leads.passes known ?_ ready.store rfl (fun _ _ given => given.1.store)
    (fun _ => trivial) fun _ => trivial
  cases sequence with
  | nil => exact .none (Run.ensures_pure ⟨ready, current⟩)
  | @cons _ middle _ head tail headTyped tailTyped =>
      have headFit : setting.TermsFit head.subterms := termsFit.left
      rcases global_leads headTyped headFit
        (fun strict => (fits strict).1 head List.mem_cons_self) (fun strict => (fits strict).2)
        ready with ⟨type, declares, stated, leads⟩
      rw [Moment.defineGlobals_cons]
      apply leads.bind
      rintro value evaluated ran ⟨given, awaits⟩
      have evaluates :=
        Expr.evaluateInitial_declares (Machine.invoke_declares bound) head.value
      have next := ready.run evaluates ran given.2
      have atGlobal : evaluated.current = Machine.global :=
        (evaluates.framed ran).current.trans current
      have agrees := next.agrees
      rw [atGlobal] at agrees
      refine .cons_bind (fun meets => meets (fun _ => False) context middle type declares
        (fun strict => ⟨given.1 strict, stated strict⟩) agrees given.2)
        fun _ after ran defined => ?_
      have framed := Machine.Framed.defineVariable evaluated Machine.global head.name .any
        head.isMutable value
      have same : after = (evaluated.defineVariable Machine.global head.name .any head.isMutable
          value).2 := (congrArg Prod.snd ran).symm
      rw [← same] at framed
      have stays : after.current = Machine.global := framed.current.trans atGlobal
      have later : setting.Ready (fun _ => False) middle after := by
        refine ⟨⟨defined.2, Nat.lt_of_lt_of_le next.present framed.places,
          (framed.outer _ next.present).trans next.outermost, fun _ impossible =>
            impossible.elim⟩, ?_⟩
        rw [stays]
        exact defined.1
      refine .single fun meets => meets middle extended tailTyped termsFit.right
        (fun strict => ⟨fun declaration member => (fits strict).1 declaration
          (List.mem_cons_of_mem _ member), ?_⟩) later stays
      have awaited := awaits strict
      rw [same]
      exact awaited

/-! ## Every moment -/

theorem meets_of_parts {moment : Moment} (included : setting.start.Includes moment)
    (known : ∀ part ∈ moment.parts, setting.Meets part) : setting.Meets moment := by
  rcases moment with ⟨bound, activity, machine⟩
  cases activity with
  | evaluate value => exact evaluate_meets included known
  | evaluateAll values => exact evaluateAll_meets known
  | execute statement => exact execute_meets included known
  | executeAll statements => exact executeAll_meets known
  | select value cases => exact select_meets known
  | iterate condition body rounds => exact iterate_meets known
  | invoke function arguments => exact invoke_meets known
  | bind signature index position bindings => exact bind_meets known
  | define declaration position name isMutable value => exact define_meets included
  | defineGlobals declarations => exact defineGlobals_meets known
  | run program => trivial

/-- Every moment of a run meets what is expected of it. -/
theorem meets_of_includes {moment : Moment} (included : setting.start.Includes moment) :
    setting.Meets moment := by
  induction moment using Moment.induction_on_parts with
  | step whole induction =>
      refine meets_of_parts included fun part member => induction part member ?_
      exact included.trans (.inside member (.self part))

end Setting

end Plc
