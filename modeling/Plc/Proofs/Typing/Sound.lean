import Plc.Command
import Plc.Proofs.Typing.Derivation

/-! What the checker accepts is derivable by the rules, with the types that it
notes. Notes are only ever added: an expression keeps the type it was given. -/

namespace Plc

open Typing

/-! ## What a check establishes -/

def Typing.Annotations.Notes (annotations : Annotations) (id : Nat) (type : Ty) : Prop :=
  annotations.typeTable[id]? = some type

namespace Typing.Check

/-- When the action succeeds, earlier notes are kept, and `holds` is true of its
result and of all notes that include the later ones. -/
def Establishes (action : Check α) (holds : (Nat → Ty → Prop) → α → Prop) : Prop :=
  ∀ before result after, action before = .ok (result, after) →
    (∀ id type, before.Notes id type → after.Notes id type) ∧
    ∀ noted, (∀ id type, after.Notes id type → noted id type) → holds noted result

namespace Establishes

variable {holds : (Nat → Ty → Prop) → α → Prop}

theorem pure {value : α} (always : ∀ noted, holds noted value) :
    Establishes (pure value) holds := by
  intro before result after ran
  cases ran
  exact ⟨fun _ _ note => note, fun noted _ => always noted⟩

theorem throw (error : TypingError) : Establishes (throw error) holds := by
  intro before result after ran
  cases ran

theorem lift (result : Except TypingError α) :
    Establishes (liftM result) fun _ value => result = .ok value := by
  intro before value after ran
  cases result with
  | error error => cases ran
  | ok given =>
      cases ran
      exact ⟨fun _ _ note => note, fun _ _ => rfl⟩

theorem bind {action : Check α} {next : α → Check β} {wanted : (Nat → Ty → Prop) → β → Prop}
    (first : Establishes action holds)
    (second : ∀ value, Establishes (next value) fun noted result =>
      holds noted value → wanted noted result) :
    Establishes (action >>= next) wanted := by
  intro before result after ran
  have opened : (action >>= next) before =
      (action before).bind fun pair => next pair.1 pair.2 := rfl
  rw [opened] at ran
  cases middle : action before with
  | error error =>
      rw [middle] at ran
      cases ran
  | ok pair =>
      rw [middle] at ran
      rcases first before pair.1 pair.2 middle with ⟨kept, established⟩
      rcases second pair.1 pair.2 result after ran with ⟨keptLater, establishedLater⟩
      refine ⟨fun id type note => keptLater id type (kept id type note), ?_⟩
      intro noted includes
      exact establishedLater noted includes
        (established noted fun id type note => includes id type (keptLater id type note))

theorem mono {action : Check α} {weaker : (Nat → Ty → Prop) → α → Prop}
    (establishes : Establishes action holds)
    (implies : ∀ noted value, holds noted value → weaker noted value) :
    Establishes action weaker := fun before result after ran =>
  ⟨(establishes before result after ran).1, fun noted includes =>
    implies noted result ((establishes before result after ran).2 noted includes)⟩

theorem recordType (id : Nat) (type : Ty) :
    Establishes (recordType id type) fun noted result => result = type ∧ noted id type := by
  intro before result after ran
  unfold Check.recordType at ran
  split at ran
  · cases ran
  · rename_i fresh
    cases ran
    constructor
    · intro other otherType note
      have different : id ≠ other := by
        rintro rfl
        exact fresh (Std.TreeMap.isSome_getElem?_iff_mem.mp (by rw [note]; rfl))
      simpa [Annotations.Notes, Std.TreeMap.getElem?_insert, different] using note
    · intro noted includes
      exact ⟨rfl, includes id type (by simp [Annotations.Notes])⟩

theorem recordVariable (id : Nat) (binding : Variable) :
    Establishes (recordVariable id binding) fun _ _ => True := by
  intro before result after ran
  cases ran
  exact ⟨fun _ _ note => note, fun _ _ => trivial⟩

theorem recordFunction (id : Nat) (binding : Signature) :
    Establishes (recordFunction id binding) fun _ _ => True := by
  intro before result after ran
  cases ran
  exact ⟨fun _ _ note => note, fun _ _ => trivial⟩

end Establishes

end Typing.Check

/-! ## Expressions -/

theorem Ty.require_eq_ok_iff {target actual : Ty} {done : Unit} :
    target.require actual = .ok done ↔ target.accepts actual = true := by
  unfold Ty.require
  split <;> simp_all

theorem Ty.eq_of_accepts_boolean {actual : Ty} (accepts : Ty.boolean.accepts actual = true) :
    actual = .boolean := by
  cases actual <;> first | rfl | cases accepts

theorem Ty.eq_of_accepts_integer {actual : Ty} (accepts : Ty.integer.accepts actual = true) :
    actual = .integer := by
  cases actual <;> first | rfl | cases accepts

open Check (Establishes)

namespace Typing

theorem findVariable_establishes (context : Context) (name : String) :
    Establishes (findVariable context name) fun _ found =>
      context.lookup name = some found := by
  unfold findVariable
  split
  · exact .pure fun _ => by assumption
  · exact .throw _

theorem findFunction_establishes (context : Context) (name : String) (arity : Nat) :
    Establishes (findFunction context name arity) fun _ found =>
      context.lookupFunction name arity = some found := by
  unfold findFunction
  split
  · exact .pure fun _ => by assumption
  · exact .throw _

theorem accessType_establishes (context : Context) (node : Node) (name : String) :
    Establishes (accessType context node name) fun noted type => ∃ found,
      context.lookup name = some found ∧ type = found.type ∧ noted node.id found.type := by
  apply (findVariable_establishes context name).bind
  intro found
  apply (Establishes.recordVariable _ _).bind
  intro _
  apply (Establishes.recordType _ _).mono
  rintro noted type ⟨rfl, note⟩ _ lookup
  exact ⟨found, lookup, rfl, note⟩

theorem requireAll_eq_ok {targets actuals : List Ty} {done : Unit}
    (accepted : requireAll targets actuals = .ok done) :
    ∀ pair ∈ targets.zip actuals, pair.1.accepts pair.2 = true := by
  induction targets generalizing actuals with
  | nil => simp
  | cons target targets induction =>
      cases actuals with
      | nil => simp
      | cons actual actuals =>
          rw [requireAll] at accepted
          cases first : target.require actual with
          | error error =>
              rw [first] at accepted
              cases accepted
          | ok _ =>
              rw [first] at accepted
              intro pair member
              rcases List.mem_cons.mp member with rfl | member
              · exact Ty.require_eq_ok_iff.mp first
              · exact induction accepted pair member

end Typing

mutual

theorem Expr.check_establishes (context : Context) : ∀ expression : Expr,
    Establishes (expression.check context) fun noted type =>
      expression.HasType noted context type
  | .literal node value => by
      apply (Establishes.lift _).bind
      intro type
      apply (Establishes.recordType _ _).mono
      rintro noted _ ⟨rfl, note⟩ typed
      exact .literal typed note
  | .group node inner => by
      unfold Expr.check
      cases binary : inner.isBinary with
      | false => exact .throw _
      | true =>
          apply (inner.check_establishes context).bind
          intro type
          apply (Establishes.recordType _ _).mono
          rintro noted _ ⟨rfl, note⟩ typed
          exact .group binary typed note
  | .binary node operator left right => by
      apply (left.check_establishes context).bind
      intro leftType
      apply (right.check_establishes context).bind
      intro rightType
      apply (Establishes.lift _).bind
      intro type
      apply (Establishes.recordType _ _).mono
      rintro noted _ ⟨rfl, note⟩ operation rightTyped leftTyped
      exact .binary leftTyped rightTyped operation note
  | .access node name => by
      apply (accessType_establishes context node name).mono
      rintro noted _ ⟨found, lookup, rfl, note⟩
      exact .access lookup note
  | .element node name index => by
      apply (index.check_establishes context).bind
      intro indexType
      apply (Establishes.lift _).bind
      intro _
      apply (accessType_establishes context node name).mono
      rintro noted _ ⟨found, lookup, rfl, note⟩ accepted indexTyped
      cases Ty.eq_of_accepts_integer (Ty.require_eq_ok_iff.mp accepted)
      exact .element indexTyped lookup note
  | .call node name arguments => by
      apply (Expr.checkAll_establishes context arguments).bind
      intro types
      apply (findFunction_establishes context name arguments.length).bind
      intro found
      apply (Establishes.lift _).bind
      intro _
      apply (Establishes.recordFunction _ _).bind
      intro _
      apply (Establishes.recordType _ _).mono
      rintro noted _ ⟨rfl, note⟩ _ accepted lookup typed
      exact .call typed lookup (requireAll_eq_ok accepted) note
  | .list _ _ => .throw _

theorem Expr.checkAll_establishes (context : Context) : ∀ expressions : List Expr,
    Establishes (Expr.checkAll context expressions) fun noted types =>
      Expr.HaveTypes noted context expressions types
  | [] => .pure fun _ => .nil
  | head :: tail => by
      apply (head.check_establishes context).bind
      intro type
      apply (Expr.checkAll_establishes context tail).bind
      intro types
      exact .pure fun noted tailTyped headTyped => .cons headTyped tailTyped

end

/-! ## Declarations -/

namespace Typing

theorem declare_establishes (context : Context) (id : Nat) (declared : Variable) :
    Establishes (declare context id declared) fun _ extended =>
      context.declare? declared = some extended := by
  unfold declare
  split
  · exact .throw _
  · apply (Establishes.recordVariable _ _).bind
    intro _
    exact .pure fun _ _ => by assumption

theorem initializerType_establishes (context : Context) (name : String) (stated : Option Ty)
    (value : Option Expr) :
    Establishes (initializerType context name stated value) fun noted type =>
      Initializes noted context stated value type := by
  unfold initializerType
  cases value with
  | some value =>
      apply (value.check_establishes context).bind
      intro actual
      cases stated with
      | some stated =>
          apply (Establishes.lift _).bind
          intro _
          exact .pure fun noted accepted typed =>
            .fits typed (Ty.require_eq_ok_iff.mp accepted)
      | none => exact .pure fun noted typed => .infers typed
  | none =>
      cases stated with
      | some stated => exact .pure fun _ => .unset
      | none => exact .throw _

theorem elementType_establishes (context : Context) (stated : Option Ty)
    (elements : List Expr) :
    Establishes (elementType context stated elements) fun noted type =>
      Elements noted context stated elements type := by
  induction elements generalizing stated with
  | nil =>
      unfold elementType
      exact .pure fun _ => .nil
  | cons head tail induction =>
      unfold elementType
      apply (head.check_establishes context).bind
      intro actual
      cases stated with
      | some stated =>
          apply (Establishes.lift _).bind
          intro _
          apply (induction (some stated)).mono
          intro noted type rest accepted typed
          exact .fits typed (Ty.require_eq_ok_iff.mp accepted) rest
      | none =>
          exact (induction (some actual)).mono fun noted type rest typed => .infers typed rest

end Typing

/-! ## Statements -/

mutual

theorem Stmt.check_establishes (context : Context) : ∀ statement : Stmt,
    Establishes (statement.check context) fun noted extended =>
      statement.Typed noted context extended
  | .expression value => by
      unfold Stmt.check
      cases call : value.isCall with
      | false => exact .throw _
      | true =>
          apply (value.check_establishes context).bind
          intro type
          exact .pure fun noted typed => .expression call typed
  | .declaration id name typeName value => by
      apply (Establishes.lift _).bind
      intro stated
      apply (initializerType_establishes context name stated value).bind
      intro type
      apply (declare_establishes context id _).mono
      intro noted extended declares initializes named
      exact .declaration named initializes declares
  | .assignment receiver value => by
      unfold Stmt.check
      cases receives : receiver.isReceiver with
      | false => exact .throw _
      | true =>
          apply (receiver.check_establishes context).bind
          intro target
          apply (value.check_establishes context).bind
          intro actual
          apply (Establishes.lift _).bind
          intro _
          exact .pure fun noted accepted valueTyped receiverTyped =>
            .assignment receives receiverTyped valueTyped (Ty.require_eq_ok_iff.mp accepted)
  | .conditional condition whenTrue whenFalse => by
      unfold Stmt.check
      apply (condition.check_establishes context).bind
      intro type
      apply (Establishes.lift _).bind
      intro _
      cases empty : whenTrue.isEmpty with
      | true => exact .throw _
      | false =>
          apply (Stmt.checkAll_establishes context.nest whenTrue).bind
          intro _
          apply (Stmt.checkAll_establishes context.nest whenFalse).bind
          intro _
          refine .pure fun noted falseTyped trueTyped accepted typed => ?_
          cases Ty.eq_of_accepts_boolean (Ty.require_eq_ok_iff.mp accepted)
          exact .conditional typed empty trueTyped falseTyped
  | .switch condition cases => by
      apply (condition.check_establishes context).bind
      intro type
      apply (Case.checkAll_establishes context type cases).bind
      intro _
      exact .pure fun noted casesTyped typed => .switch typed casesTyped
  | .loop condition body => by
      apply (condition.check_establishes context).bind
      intro type
      apply (Establishes.lift _).bind
      intro _
      apply (Stmt.checkAll_establishes context.nest body).bind
      intro _
      refine .pure fun noted bodyTyped accepted typed => ?_
      cases Ty.eq_of_accepts_boolean (Ty.require_eq_ok_iff.mp accepted)
      exact .loop typed bodyTyped
  | .returns value => by
      apply (findVariable_establishes context "RETURN").bind
      intro expected
      apply (value.check_establishes context).bind
      intro actual
      apply (Establishes.lift _).bind
      intro _
      exact .pure fun noted accepted typed lookup =>
        .returns lookup typed (Ty.require_eq_ok_iff.mp accepted)

theorem Stmt.checkAll_establishes (context : Context) : ∀ statements : List Stmt,
    Establishes (Stmt.checkAll context statements) fun noted _ =>
      Stmt.AllTyped noted context statements
  | [] => .pure fun _ => .nil
  | head :: tail => by
      apply (head.check_establishes context).bind
      intro extended
      exact (Stmt.checkAll_establishes extended tail).mono
        fun noted _ tailTyped headTyped => .cons headTyped tailTyped

theorem Case.checkAll_establishes (context : Context) (type : Ty) : ∀ cases : List Case,
    Establishes (Case.checkAll context type cases) fun noted _ =>
      Stmt.CasesTyped noted context type cases
  | [] => .pure fun _ => .nil
  | .mk none body :: tail => by
      unfold Case.checkAll Case.check
      cases tail with
      | cons next rest => exact .throw _
      | nil =>
          apply (Stmt.checkAll_establishes context.nest body).bind
          intro _
          exact .pure fun noted bodyTyped => .default bodyTyped
  | .mk (some value) body :: tail => by
      have following := Case.checkAll_establishes context type tail
      unfold Case.checkAll Case.check
      cases others : tail.isEmpty with
      | true => exact .throw _
      | false =>
          have first : Establishes (do
              type.require (← value.check context)
              Stmt.checkAll context.nest body) fun noted _ => ∃ actual,
                value.HasType noted context actual ∧ type.accepts actual = true ∧
                Stmt.AllTyped noted context.nest body := by
            apply (value.check_establishes context).bind
            intro actual
            apply (Establishes.lift _).bind
            intro _
            apply (Stmt.checkAll_establishes context.nest body).mono
            intro noted _ bodyTyped accepted typed
            exact ⟨actual, typed, Ty.require_eq_ok_iff.mp accepted, bodyTyped⟩
          refine first.bind fun _ => following.mono ?_
          rintro noted _ tailTyped ⟨actual, typed, accepts, bodyTyped⟩
          exact .cons typed accepts bodyTyped others tailTyped

end

/-! ## Programs -/

theorem Global.check_establishes (context : Context) (declaration : Global) :
    Establishes (declaration.check context) fun noted extended =>
      declaration.Typed noted context extended := by
  unfold Global.check
  apply (Establishes.lift _).bind
  intro stated
  split
  · rename_i node elements isList
    apply (elementType_establishes context stated elements).bind
    intro type
    apply (Establishes.recordType node.id type).bind
    intro given
    apply (declare_establishes context declaration.id _).mono
    rintro noted extended declares ⟨rfl, note⟩ elementsTyped named
    exact .list isList named elementsTyped note declares
  · apply (initializerType_establishes context declaration.name stated _).bind
    intro type
    apply (declare_establishes context declaration.id _).mono
    intro noted extended declares initializes named
    exact .plain named initializes declares

theorem Procedure.check_establishes (context : Context) (procedure : Procedure) :
    Establishes (procedure.check context) fun noted extended =>
      procedure.Typed noted context extended := by
  unfold Procedure.check
  apply (Establishes.lift _).bind
  intro signature
  split
  · exact .throw _
  · rename_i extended declares
    apply (Establishes.recordFunction _ _).bind
    intro _
    apply (Establishes.lift _).bind
    intro body
    apply (Stmt.checkAll_establishes body procedure.body).bind
    intro _
    exact .pure fun noted bodyTyped context _ signed =>
      ⟨signature, body, signed, declares, context, bodyTyped⟩

theorem Typing.foldlM_establishes {check : Context → α → Check Context}
    {typed : (Nat → Ty → Prop) → Context → α → Context → Prop}
    (each : ∀ context declaration, Establishes (check context declaration) fun noted extended =>
      typed noted context declaration extended)
    (declarations : List α) (context : Context) :
    Establishes (declarations.foldlM check context) fun noted last =>
      Sequence (typed noted) context declarations last := by
  induction declarations generalizing context with
  | nil => exact .pure fun _ => .nil
  | cons head tail induction =>
      rw [List.foldlM_cons]
      apply (each context head).bind
      intro middle
      exact (induction middle).mono fun noted last rest first => .cons first rest

/-- An accepted program is well typed by the rules, with the types that are noted. -/
theorem Program.typed_of_check {context : Context} {program : Program}
    {annotations : Annotations} (accepted : program.check context = .ok annotations) :
    program.Typed annotations.Notes context := by
  have established : Establishes (do
      let context ← program.globals.foldlM Global.check context
      let context ← program.procedures.foldlM Procedure.check context
      requireMain context : Check Unit) fun noted _ => program.Typed noted context := by
    refine (foldlM_establishes Global.check_establishes program.globals context).bind
      fun middle => ?_
    refine (foldlM_establishes Procedure.check_establishes program.procedures middle).bind
      fun last => ?_
    exact (Establishes.lift _).mono fun noted _ main procedures globals =>
      ⟨middle, last, globals, procedures, main⟩
  unfold Program.check at accepted
  dsimp only at accepted
  cases ran : (do
      let context ← program.globals.foldlM Global.check context
      let context ← program.procedures.foldlM Procedure.check context
      requireMain context : Check Unit).run .empty with
  | error error =>
      rw [ran] at accepted
      cases accepted
  | ok pair =>
      rw [ran] at accepted
      cases accepted
      exact (established _ _ _ ran).2 _ fun _ _ note => note

theorem eq_ok_of_toOption {result : Except ε α} {value : α}
    (given : result.toOption = some value) : result = .ok value := by
  cases result with
  | error error => cases given
  | ok other =>
      cases given
      rfl

theorem exists_ok_of_any {result : Except ε α} {test : α → Bool}
    (passes : result.toOption.any test = true) :
    ∃ value, result = .ok value ∧ test value = true := by
  rcases (Option.any_eq_true _ _).mp passes with ⟨value, given, passed⟩
  exact ⟨value, eq_ok_of_toOption given, passed⟩

theorem Program.check_of_checkText {context : Context} {text : String} {program : Program}
    {annotations : Annotations}
    (accepted : Program.checkText context text = .ok (program, annotations)) :
    program.check context = .ok annotations := by
  unfold Program.checkText at accepted
  cases read : Program.ofText text with
  | error error =>
      rw [read] at accepted
      cases accepted
  | ok parsed =>
      rw [read] at accepted
      have opened : ((parsed.check context).mapError Diagnostic.typing >>= fun annotations =>
          pure (parsed, annotations)) = .ok (program, annotations) := accepted
      cases checked : parsed.check context with
      | error error =>
          rw [checked] at opened
          cases opened
      | ok notes =>
          rw [checked] at opened
          cases opened
          exact checked

end Plc
