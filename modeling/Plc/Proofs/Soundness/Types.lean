import Plc.Proofs.Soundness.Hosts
import Plc.Proofs.Soundness.Returns

/-! Checked programs of the safe fragment know their types. At every moment of a run,
every cell holds a value of the type of its variable, and every expression has a value
of its type. -/

namespace Plc

open Typing

/-- Every cell belongs to a variable that was declared in the run from `start`, and
holds a value that the type of the declaration admits. -/
def Program.CellsAdmitted (program : Program) (annotations : Annotations) (start : Moment)
    (machine : Machine) : Prop :=
  ∀ cell < machine.cells.size,
    (∃ creating declaration, start.Includes creating ∧ creating.Creates declaration cell) ∧
    ∀ creating declaration, start.Includes creating → creating.Creates declaration cell →
      ∃ type, program.declaredType annotations declaration = some type ∧
        type.admits (machine.cell cell).kind = true

/-! ## The fragment as a strict run needs it -/

section

variable {program : Program} {annotations : Annotations} {start : Moment}

theorem Program.InSafeFragment.listTypes_eq_nil (fragment : program.InSafeFragment annotations) :
    program.listTypes annotations = [] := by
  rw [Program.listTypes, List.filterMap_eq_nil_iff]
  intro declaration member
  cases value : declaration.value with
  | none => rw [Global.elementType?, value]
  | some first =>
      cases first with
      | list node elements =>
          have inside : Expr.list node elements ∈ program.subterms := by
            refine List.mem_append_left _ (List.mem_flatMap.mpr ⟨declaration, member, ?_⟩)
            rw [Global.subterms, value]
            exact List.mem_cons_self
          exact (fragment.terms _ inside).elim
      | _ => rw [Global.elementType?, value]

theorem Declaration.Begins.opens {setting : Setting} {name : String} {typeName : Option String}
    {value : Option Expr} (begins : Declaration.Begins name typeName value) :
    setting.Opens typeName value := by
  rcases begins.2 with present | isAny | isNil
  · exact .inl present
  · refine .inr fun type named => ?_
    rw [isAny] at named
    cases named
    exact .nil rfl
  · refine .inr fun type named => ?_
    rw [isNil] at named
    cases named
    exact .nil rfl

theorem Procedure.Promises.ends {setting : Setting} {procedure : Procedure}
    (promises : procedure.Promises) : setting.Ends procedure := by
  by_cases maybeMissing :
      procedure.resultTypeName ∈ [none, some Ty.nil.name, some Ty.any.name]
  · refine .inr fun type named => .nil ?_
    simp only [List.mem_cons, List.not_mem_nil, or_false] at maybeMissing
    rcases maybeMissing with unnamed | isNil | isAny
    · rw [unnamed] at named
      rw [show type = .nil from named]
      rfl
    · rw [isNil, Ty.IsNamed, Ty.ofName?_name] at named
      rw [← Option.some.inj named]
      rfl
    · rw [isAny, Ty.IsNamed, Ty.ofName?_name] at named
      rw [← Option.some.inj named]
      rfl
  · exact .inl (promises maybeMissing)

theorem Expr.InFragment.read?_ne {term : Expr} (fragment : term.InFragment annotations)
    (node : Node) : term.read? ≠ some (node, "RETURN") := by
  cases term with
  | access other name =>
      rintro ⟨⟩
      exact fragment rfl
  | element _ _ _ => exact fragment.elim
  | literal _ _ | group _ _ | binary _ _ _ _ | call _ _ _ | list _ _ => nofun

theorem Program.InSafeFragment.programFits {context : Context}
    (typed : program.Typed annotations.Notes context)
    (fragment : program.InSafeFragment annotations) (strict : Prop) :
    Setting.ProgramFits ⟨program, annotations, start, strict⟩ where
  terms := by
    refine ⟨fun _ term member => ?_, fun _ => fragment.terms⟩
    have inFragment := fragment.terms term member
    cases term with
    | list _ _ | element _ _ _ => exact inFragment.elim
    | access _ _ =>
        rintro moment cell type _ ⟨node, machine, target, read, _⟩
        exact absurd read (inFragment.read?_ne node)
    | binary _ _ _ _ => exact fun isPower noted => absurd noted (inFragment.2 isPower)
    | literal _ _ | group _ _ | call _ _ _ => trivial
  globals _ := ⟨fun declaration member => (fragment.globals declaration member).opens,
    fragment.listTypes_eq_nil.symm⟩
  statements procedure member result named _ statement inside := by
    have inFragment := fragment.statements procedure member statement inside
    cases statement with
    | declaration _ _ _ _ => exact inFragment.opens
    | assignment receiver value =>
        have among : receiver ∈ program.subterms := by
          refine List.mem_append_right _ (List.mem_flatMap.mpr ⟨procedure, member, ?_⟩)
          exact Stmt.subterms_of_nestedInAll inside
            (List.mem_append_left _ receiver.mem_subterms_self)
        exact ⟨(fragment.terms receiver among).read?_ne, fun _ _ _ _ _ listed => nomatch listed⟩
    | returns value =>
        have spared : ∀ id typeName first,
            Stmt.declaration id "RETURN" typeName first ∉ Stmt.nestedInAll procedure.body :=
          fun id typeName first declared =>
            (fragment.statements procedure member _ declared).1 rfl
        rcases Program.returned_accepts typed member spared inside with
          ⟨other, actual, stated, noted, accepts⟩
        rw [Procedure.resultType?_of_isNamed named] at stated
        cases stated
        exact fun _ _ _ => ⟨actual, noted, accepts⟩
    | expression _ | conditional _ _ _ | switch _ _ | loop _ _ => trivial
  returns _ procedure member := (fragment.returns procedure member).ends

theorem Setting.starts_standard (setting : Setting) (output : Output) :
    setting.Starts Context.standard (Machine.standard output) := by
  refine Setting.starts_of_hosts Context.Hosts.standard (Machine.Hosts.standard output)
    (fun _ => Iff.rfl) fun name arity signature function known looked => ?_
  have isPrint : (name, arity) = ("print", 1) := by
    have member := (Context.Hosts.standard.functions name arity).mp
      (Option.isSome_of_eq_some known)
    exact List.mem_singleton.mp member
  cases isPrint
  cases known
  cases looked
  refine .native rfl ?_ ?_
  · intro arguments memory error after stopped
    rcases (Native.print_result stopped).2 with gives | unfinished | closed
    · cases gives
    · cases unfinished
    · cases closed
      exact ⟨rfl, fun _ => rfl⟩
  · intro _ arguments memory result after ran
    have printed := Native.print_result ran
    refine ⟨printed.1, ?_⟩
    rintro value rfl
    rcases printed.2 with gives | unfinished | closed
    · cases gives
      exact .nil rfl
    · cases unfinished
    · cases closed

end

/-! ## Soundness -/

theorem Setting.cellsAdmitted {setting : Setting} {machine : Machine}
    (errors : setting.strict.errors) (sound : setting.Sound setting.start)
    (empty : setting.start.machine.cells = #[]) (fit : setting.StoreFits machine)
    (within : machine.cells.size ≤ setting.start.after.cells.size) :
    setting.program.CellsAdmitted setting.annotations setting.start machine := by
  intro cell present
  refine ⟨?_, fun creating declaration included creates => ?_⟩
  · exact setting.start.exists_creates (by rw [empty]; exact Nat.zero_le _)
      (Nat.lt_of_lt_of_le present within)
  · have shows := (sound creating included).shows errors
    rcases creates with ⟨position, name, isMutable, value, defines, created⟩
    rw [Setting.Shows, defines] at shows
    rcases shows with ⟨type, stated⟩
    have strict := (setting.strict.exact errors).1
    refine ⟨type, stated, (fit.cells strict cell type
      ⟨creating, declaration, included, ?_, stated⟩ present).admits errors⟩
    exact ⟨position, name, isMutable, value, defines, created⟩

/-- A checked program of the safe fragment runs, for however long, without an error
about a type. At the start and at the end of all that it does, every cell holds a value
that the type of its declaration admits, and every expression has a value that its noted
type admits. -/
theorem Program.run_admitted {program : Program} {annotations : Annotations}
    (accepted : program.check Context.standard = .ok annotations)
    (fragment : program.InSafeFragment annotations) (bound : Nat) (output : Output) :
    (∀ error, ((program.run bound).run (Machine.standard output)).1 = .error (.fault error) →
      error.isTyping = false) ∧
    ∀ moment, Moment.Includes ⟨bound, .run program, Machine.standard output⟩ moment →
      program.CellsAdmitted annotations ⟨bound, .run program, Machine.standard output⟩
        moment.machine ∧
      program.CellsAdmitted annotations ⟨bound, .run program, Machine.standard output⟩
        moment.after ∧
      ∀ expression value after, moment.activity = .evaluate expression →
        (expression.evaluate (Machine.invoke moment.bound)).run moment.machine =
          (.ok value, after) →
        ∃ type, annotations.typeTable[expression.node.id]? = some type ∧
          type.admits value.kind = true := by
  let start : Moment := ⟨bound, .run program, Machine.standard output⟩
  let setting : Setting := ⟨program, annotations, start, True⟩
  have typed := Program.typed_of_check accepted
  have passes := setting.program_passes typed (fragment.programFits typed True)
    (setting.starts_standard output) rfl
  refine ⟨fun error failed => ?_, fun moment included => ?_⟩
  · cases ran : (program.run bound).run (Machine.standard output) with
    | mk result after =>
        rw [ran] at failed
        cases failed
        exact ((passes.2.stop ran).1 error rfl).2 trivial
  · have good := passes.1 moment included
    have bounds := included.bounds
    refine ⟨setting.cellsAdmitted trivial passes.1 rfl good.before
      (Nat.le_trans moment.grows bounds.2),
      setting.cellsAdmitted trivial passes.1 rfl good.after bounds.2, ?_⟩
    intro expression value after evaluates ran
    have shows := good.shows trivial
    rw [Setting.Shows, evaluates] at shows
    exact shows value after ran

/-- A variable that counts to three is an integer all the way. -/
theorem Program.run_admitted_of_counting :
    ∃ (program : Program) (annotations : Annotations),
      program.check Context.standard = .ok annotations ∧
      program.InSafeFragment annotations ∧
      program.CellsAdmitted annotations ⟨9, .run program, Machine.standard (.empty none)⟩
        ((program.run 9).run (Machine.standard (.empty none))).2 := by
  have computed : (match Program.checkText Context.standard
      "VAR n: Integer = 1; FUN main(): Integer DO WHILE n < 3 DO n = n + 1; END RETURN n; END" with
      | .ok (program, annotations) => decide (program.InSafeFragment annotations)
      | .error _ => false) = true := by decide +kernel
  split at computed
  · rename_i program annotations read
    have accepted := Program.check_of_checkText read
    have fragment := of_decide_eq_true computed
    have admitted := Program.run_admitted accepted fragment 9 (.empty none)
    exact ⟨program, annotations, accepted, fragment,
      (admitted.2 ⟨9, .run program, Machine.standard (.empty none)⟩ (.self _)).2.1⟩
  · cases computed

end Plc
