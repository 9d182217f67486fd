import Plc.Proofs.Soundness.Calls
import Plc.Proofs.Typing.Program

/-! Whole programs: a run that starts at a machine with the functions of its context
defines the globals, then the functions, and calls `main`, and every moment of it is
sound. -/

namespace Plc

open Typing

namespace Setting

variable {setting : Setting} {context last : Context} {machine : Machine} {bound : Nat}

/-- A function always returns, unless a result that is missing suits its type. -/
def Ends (setting : Setting) (procedure : Procedure) : Prop :=
  Stmt.blockReturns procedure.body = true ∨
    ∀ type : Ty, type.IsNamed procedure.resultTypeName .nil → setting.Suits type .nil

/-- The program is of the fragment that a strict run needs. -/
structure ProgramFits (setting : Setting) : Prop where
  terms : setting.TermsFit setting.program.subterms
  globals : setting.strict → setting.GlobalsFit setting.program.globals ∧
    setting.strict.lists = setting.program.listTypes setting.annotations
  statements : ∀ procedure ∈ setting.program.procedures,
    ∀ result : Ty, result.IsNamed procedure.resultTypeName .nil →
      setting.StatementsFit result (Stmt.nestedInAll procedure.body)
  returns : setting.strict → ∀ procedure ∈ setting.program.procedures,
    setting.Ends procedure

theorem bodyFits_of_typed {procedure : Procedure} {signature : Signature}
    {extended body : Context} (fits : setting.ProgramFits)
    (member : procedure ∈ setting.program.procedures)
    (found : setting.program.procedures.find? (fun other => other.name == procedure.name &&
      other.parameters.length == procedure.parameters.length) = some procedure)
    (signs : procedure.signature = .ok signature)
    (opens : bodyContext extended (procedure.parameters.map (·.name)) signature = .ok body)
    (typed : Stmt.AllTyped setting.annotations.Notes body procedure.body)
    (below : extended.Below last) :
    setting.BodyFits (fun context => context.Below last) procedure signature extended body := by
  have signed := Procedure.signed signs
  refine ⟨below, signed.length, opens, typed, ?_,
    fits.statements procedure member signature.result signed.result, ?_, ?_⟩
  · refine fits.terms.mono fun term inBody => List.mem_append_right _ ?_
    exact List.mem_flatMap.mpr ⟨procedure, member, inBody⟩
  · intro strict
    exact ((fits.returns strict procedure member).imp_right fun suits =>
      suits signature.result signed.result).symm
  · intro _ index type given
    have present : index < procedure.parameters.length := by
      rw [← signed.length]
      exact (List.getElem?_eq_some_iff.mp given).1
    have known := List.getElem?_eq_getElem present
    have named := signed.parameters index _ type known given
    rw [Program.declaredType, found]
    simp only [Option.bind_eq_bind, Option.bind_some, known]
    cases stated : procedure.parameters[index].typeName with
    | some spelling =>
        rw [stated] at named
        exact named
    | none =>
        rw [stated] at named
        rw [named]

def FunctionsDeclared (context : Context) (machine : Machine) : Prop :=
  ∀ name arity, ((machine.scopes.scope Machine.global).lookupFunction name arity).isSome →
    (context.inner.lookupFunction name arity).isSome

theorem define_procedure {bodies : Context → Prop} {procedure : Procedure}
    {signature : Signature} {extended bodyOuter body : Context}
    (signed : procedure.Signed signature)
    (declares : context.declareFunction? signature = some extended)
    (fits : setting.BodyFits bodies procedure signature bodyOuter body)
    (agrees : setting.Agrees bodies context machine Machine.global)
    (declared : FunctionsDeclared context machine) :
    ∃ after, procedure.define.run machine = (.ok (), after) ∧
      setting.Agrees bodies extended after Machine.global ∧ FunctionsDeclared extended after ∧
      after.scopes.outer Machine.global = machine.scopes.outer Machine.global ∧
      after.cells = machine.cells ∧ after.memory = machine.memory := by
  let function : Machine.Function :=
    ⟨Machine.untyped procedure.name procedure.parameters.length,
      .declared (procedure.parameters.map (·.name)) procedure.body Machine.global⟩
  have name : function.signature.name = signature.name := signed.name.symm
  have arity : function.signature.arity = signature.arity := by
    simp [function, Signature.arity, Machine.untyped, signed.length]
  have free : (machine.scopes.scope Machine.global).lookupFunction function.signature.name
      function.signature.arity = none := by
    rw [name, arity]
    cases taken : (machine.scopes.scope Machine.global).lookupFunction signature.name
      signature.arity with
    | none => rfl
    | some other =>
        have known := declared signature.name signature.arity (by rw [taken]; rfl)
        rw [Context.inner_lookupFunction_of_declareFunction? declares] at known
        cases known
  rcases Machine.defineFunction_of_free free with ⟨scope, defined, grown⟩
  have opened : procedure.define.run machine =
      ((if (machine.defineFunction Machine.global function).1 then .ok ()
        else .error (.fault (.redefinition function.signature.name))),
        (machine.defineFunction Machine.global function).2) := rfl
  rw [name, arity] at defined
  refine ⟨{ machine with scopes := machine.scopes.setScope Machine.global scope }, ?_, ?_, ?_,
    Scope.Tree.outer_setScope _ _ _ _, rfl, rfl⟩
  · rw [opened, grown]
    rfl
  · exact agrees.extendFunction declares defined (.declared rfl rfl fits)
  · intro other otherArity known
    rw [Scope.Tree.lookupFunction_setScope_definedFunction defined agrees.present] at known
    rw [Context.inner_lookupFunction_declareFunction? declares]
    split at known
    · rename_i same
      rw [if_pos same.2]
      rfl
    · rename_i different
      rw [if_neg fun same => different ⟨rfl, same⟩]
      exact declared other otherArity known

theorem defineFunctions_ensures {procedures : List Procedure} (fits : setting.ProgramFits)
    (sequence : Sequence (Procedure.Typed setting.annotations.Notes) context procedures last)
    (outermost : context.outer = [])
    (member : ∀ procedure ∈ procedures, procedure ∈ setting.program.procedures)
    (found : ∀ procedure ∈ procedures,
      setting.program.procedures.find? (fun other => other.name == procedure.name &&
        other.parameters.length == procedure.parameters.length) = some procedure)
    (agrees : setting.Agrees (fun context => context.Below last) context machine Machine.global)
    (declared : FunctionsDeclared context machine) :
    (procedures.forM Procedure.define).Ensures machine (fun _ after =>
      setting.Agrees (fun context => context.Below last) last after Machine.global ∧
        after.scopes.outer Machine.global = machine.scopes.outer Machine.global ∧
        after.cells = machine.cells ∧ after.memory = machine.memory) setting.Halts := by
  induction sequence generalizing machine with
  | nil => exact ⟨agrees, rfl, rfl, rfl⟩
  | @cons context middle last head tail headTyped tailTyped induction =>
      rcases headTyped with ⟨signature, body, signs, declares, opens, typed⟩
      have outer := (Context.outer_of_declareFunction? declares).trans outermost
      have fitting := bodyFits_of_typed fits (member head List.mem_cons_self)
        (found head List.mem_cons_self) signs opens typed (tailTyped.procedures_below outer)
      rcases define_procedure (Procedure.signed signs) declares fitting agrees declared with
        ⟨after, ran, agreesAfter, declaredAfter, outerSame, cellsSame, memorySame⟩
      have rest := induction outer
        (fun procedure later => member procedure (List.mem_cons_of_mem _ later))
        (fun procedure later => found procedure (List.mem_cons_of_mem _ later))
        agreesAfter declaredAfter
      have opened : ((head :: tail).forM Procedure.define).run machine =
          (tail.forM Procedure.define).run after := by
        have first : (head :: tail).forM Procedure.define =
            (head.define >>= fun _ => tail.forM Procedure.define) := rfl
        rw [first, Run.run_bind, ran]
      rw [Run.Ensures, opened, ← outerSame, ← cellsSame, ← memorySame]
      exact rest

/-! ## Runs -/

/-- The machine has the functions that the context has, and no others; and no lists. -/
structure Starts (setting : Setting) (context : Context) (machine : Machine) : Prop where
  ready : setting.Ready (fun _ => False) context machine
  current : machine.current = Machine.global
  outermost : context.outer = []
  declared : FunctionsDeclared context machine
  noLists : machine.memory.lists = #[]

theorem main_of_requireMain (main : requireMain context = .ok ()) :
    ∃ signature, context.lookupFunction "main" 0 = some signature ∧
      signature.result = .integer := by
  unfold requireMain at main
  split at main
  · cases main
  · rename_i signature lookup
    split at main
    · exact ⟨signature, lookup, by assumption⟩
    · cases main

/-- A checked program runs soundly, and its value is an integer. -/
theorem program_passes (typed : setting.program.Typed setting.annotations.Notes context)
    (fits : setting.ProgramFits) (starts : setting.Starts context machine)
    (start : setting.start = ⟨bound, .run setting.program, machine⟩) :
    setting.Passes ⟨bound, .run setting.program, machine⟩ (setting.program.run bound)
      (setting.Gives .integer) := by
  rcases typed with ⟨middle, last, globals, procedures, main⟩
  have known : ∀ part ∈ Moment.parts ⟨bound, .run setting.program, machine⟩,
      setting.Meets part := by
    intro part member
    apply meets_of_includes
    rw [start]
    exact .inside member (.self part)
  refine Leads.passes known ?_ starts.ready.store rfl (fun _ _ given => given.2)
    (fun _ => trivial) fun _ => trivial
  have globalsFit : setting.strict → setting.GlobalsFit setting.program.globals ∧
      setting.Awaits setting.program.globals machine := by
    intro strict
    refine ⟨(fits.globals strict).1, ?_⟩
    rw [Awaits, starts.noLists, (fits.globals strict).2]
    rfl
  refine .cons_bind (fun meets => meets context middle globals fits.terms.left globalsFit
    starts.ready starts.current) fun _ defined ran given => ?_
  have framed := Global.defineAll_framed bound setting.program.globals machine
  rw [ran] at framed
  have declared : FunctionsDeclared middle defined := by
    intro name arity present
    rw [framed.functions _ starts.ready.present] at present
    rw [globals.globals.2]
    exact starts.declared name arity present
  have outermost : middle.outer = [] := globals.globals.1.trans starts.outermost
  have agrees := given.1.agrees
  rw [given.2] at agrees
  refine .skip_bind (defineFunctions_ensures fits procedures outermost (fun _ member => member)
    (fun procedure member => procedures.find?_procedure outermost member)
    (agrees.ofNatives _) declared) ?_
  rintro _ after _ ⟨agreesLast, outer, cells, memory⟩
  have storeFits : setting.StoreFits after :=
    given.1.store.of_eq cells (congrArg Memory.lists memory)
  have steady : setting.Steady (fun context => context.Below last) after :=
    ⟨storeFits, agreesLast.present, outer.trans given.1.outermost,
      fun context below => agreesLast.below below⟩
  rcases main_of_requireMain main with ⟨signature, lookup, result⟩
  refine .skip_bind (ensures_findFunction agreesLast lookup) ?_
  rintro function _ _ ⟨rfl, arity, realises⟩
  refine .single fun meets => ?_
  rw [← result]
  refine meets _ signature realises arity.symm (fun _ pair member => ?_) steady
  rw [List.zip_nil_right] at member
  cases member

end Setting

end Plc
