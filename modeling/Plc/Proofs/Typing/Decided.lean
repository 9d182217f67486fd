import Plc.Proofs.Typing.Scopes

/-! Checking expressions and statements decides the rules for them. -/

namespace Plc

open Typing Judgement

open Check (Decides Settles)

/-! ## Expressions -/

abbrev Judgement.Finite (value : Decimal) : Prop :=
  value.fitsBinary64 = true

namespace Typing

theorem findVariable_settles (context : Context) (name : String) :
    Settles (findVariable context name) id (Finds (·.variableOf name) context.names) := by
  unfold findVariable
  split
  · rename_i found known
    refine (Settles.pure found).congr fun result parts => and_congr_left fun _ => ?_
    rw [Context.finds_variable_iff, known, Option.some.injEq]
    exact eq_comm
  · rename_i unknown
    refine (Decides.throw _).congr fun result parts => ⟨False.elim, fun ⟨finds, _⟩ => ?_⟩
    cases unknown.symm.trans (Context.finds_variable_iff.mp finds)

theorem findFunction_settles (context : Context) (name : String) (arity : Nat) :
    Settles (findFunction context name arity) id
      (Finds (·.functionOf name arity) context.names) := by
  unfold findFunction
  split
  · rename_i found known
    refine (Settles.pure found).congr fun result parts => and_congr_left fun _ => ?_
    rw [Context.finds_function_iff, known, Option.some.injEq]
    exact eq_comm
  · rename_i unknown
    refine (Decides.throw _).congr fun result parts => ⟨False.elim, fun ⟨finds, _⟩ => ?_⟩
    cases unknown.symm.trans (Context.finds_function_iff.mp finds)

theorem requireAll_of_accepts {targets actuals : List Ty}
    (accept : ∀ pair ∈ targets.zip actuals, pair.1.accepts pair.2 = true) :
    requireAll targets actuals = .ok () := by
  induction targets generalizing actuals with
  | nil => rfl
  | cons target targets induction =>
      cases actuals with
      | nil => rfl
      | cons actual actuals =>
          rcases List.forall_mem_cons.mp accept with ⟨first, rest⟩
          have accepted : target.require actual = .ok () := Ty.require_eq_ok_iff.mpr first
          rw [requireAll, accepted]
          exact induction rest

theorem requireAll_settles (targets actuals : List Ty) :
    Settles (liftM (requireAll targets actuals)) id fun _ =>
      ∀ pair ∈ targets.zip actuals, Assignable pair.1 pair.2 :=
  .lift fun done => by
    refine ⟨fun fit => ⟨done, ?_, rfl⟩, fun ⟨_, accepted, _⟩ pair member => ?_⟩
    · exact requireAll_of_accepts fun pair member => assignable_iff.mp (fit pair member)
    · exact assignable_iff.mpr (requireAll_eq_ok accepted pair member)

theorem accessType_decides (context : Context) (expression : Expr) (name : String) :
    Decides (accessType context expression.node name) id fun type parts => ∃ found,
      Finds (·.variableOf name) context.names found ∧ type = found.type ∧
        parts = [(expression, found.type)] := by
  refine ((findVariable_settles context name).bind fun found =>
    (Settles.recordVariable expression.node.id found).bind fun _ =>
      Decides.recordType expression found.type).congr fun type parts => ?_
  simp

end Typing

mutual

/-- Checking an expression decides which type it has. -/
theorem Expr.check_decides (context : Context) : ∀ expression : Expr,
    Decides (expression.check context) id (Judgement.HasType Finite context.names expression)
  | .literal node value => by
      have settles : Settles (liftM value.type) id (LiteralType Finite value) :=
        .lift fun type => by simp [literalType_iff]
      refine (settles.bind fun type =>
        Decides.recordType (.literal node value) type).congr fun type parts => ?_
      constructor
      · rintro ⟨_, typed, rfl, rfl⟩
        exact .literal typed
      · intro derived
        cases derived with
        | literal typed => exact ⟨_, typed, rfl, rfl⟩
  | .group node inner => by
      unfold Expr.check
      cases binary : inner.isBinary with
      | false =>
          refine (Decides.throw _).congr fun type parts => ⟨False.elim, ?_⟩
          intro derived
          cases derived
          cases binary
      | true =>
          refine ((inner.check_decides context).bind fun type =>
            Decides.recordType (.group node inner) type).congr fun type parts => ?_
          constructor
          · rintro ⟨_, _, _, typed, ⟨rfl, rfl⟩, rfl⟩
            cases inner with
            | binary inner operator left right => exact .group typed
            | _ => cases binary
          · intro derived
            cases derived with
            | group typed => exact ⟨_, _, _, typed, ⟨rfl, rfl⟩, rfl⟩
  | .binary node operator left right => by
      have settles : ∀ leftType rightType, Settles (liftM (operator.type leftType rightType)) id
          (OperatorType operator leftType rightType) := fun leftType rightType =>
        .lift fun type => by simp [operatorType_iff]
      refine ((left.check_decides context).bind fun leftType =>
        (right.check_decides context).bind fun rightType =>
          (settles leftType rightType).bind fun type =>
            Decides.recordType (.binary node operator left right) type).congr
        fun type parts => ?_
      constructor
      · rintro ⟨_, _, _, leftTyped, ⟨_, _, _, rightTyped, ⟨_, operation, rfl, rfl⟩, rfl⟩, rfl⟩
        rw [← List.append_assoc]
        exact .binary leftTyped rightTyped operation
      · intro derived
        cases derived with
        | binary leftTyped rightTyped operation =>
            exact ⟨_, _, _, leftTyped, ⟨_, _, _, rightTyped, ⟨_, operation, rfl, rfl⟩, rfl⟩,
              List.append_assoc _ _ _⟩
  | .access node name => by
      refine (accessType_decides context (.access node name) name).congr fun type parts => ?_
      constructor
      · rintro ⟨_, finds, rfl, rfl⟩
        exact .access finds
      · intro derived
        cases derived with
        | access finds => exact ⟨_, finds, rfl, rfl⟩
  | .element node name index => by
      refine ((index.check_decides context).bind fun indexType =>
        (Ty.require_settles .integer indexType).bind fun _ =>
          accessType_decides context (.element node name index) name).congr fun type parts => ?_
      constructor
      · rintro ⟨_, _, _, indexTyped, ⟨_, assignable, _, finds, rfl, rfl⟩, rfl⟩
        cases assignable
        exact .element indexTyped finds
      · intro derived
        cases derived with
        | element indexTyped finds =>
            exact ⟨_, _, _, indexTyped, ⟨(), .same _, _, finds, rfl, rfl⟩, rfl⟩
  | .call node name arguments => by
      refine ((Expr.checkAll_decides context arguments).bind fun types =>
        (findFunction_settles context name arguments.length).bind fun found =>
          (requireAll_settles found.parameters types).bind fun _ =>
            (Settles.recordFunction node.id found).bind fun _ =>
              Decides.recordType (.call node name arguments) found.result).congr
        fun type parts => ?_
      constructor
      · rintro ⟨_, _, _, typed, ⟨_, finds, _, fit, _, _, rfl, rfl⟩, rfl⟩
        exact .call typed finds fit
      · intro derived
        cases derived with
        | call typed finds fit =>
            exact ⟨_, _, _, typed, ⟨_, finds, (), fit, (), trivial, rfl, rfl⟩, rfl⟩
  | .list _ _ => (Decides.throw _).congr fun _ _ => ⟨False.elim, nofun⟩

theorem Expr.checkAll_decides (context : Context) : ∀ expressions : List Expr,
    Decides (Expr.checkAll context expressions) id
      (Judgement.HaveTypes Finite context.names expressions)
  | [] => by
      refine (Settles.pure []).congr fun types parts => ?_
      constructor
      · rintro ⟨rfl, rfl⟩
        exact .nil
      · rintro ⟨⟩
        exact ⟨rfl, rfl⟩
  | head :: tail => by
      refine ((head.check_decides context).bind fun type =>
        (Expr.checkAll_decides context tail).bindSettles fun types =>
          Settles.pure (type :: types)).congr fun types parts => ?_
      constructor
      · rintro ⟨_, _, _, headTyped, ⟨_, tailTyped, rfl⟩, rfl⟩
        exact .cons headTyped tailTyped
      · intro derived
        cases derived with
        | cons headTyped tailTyped => exact ⟨_, _, _, headTyped, ⟨_, tailTyped, rfl⟩, rfl⟩

end

/-! ## Declarations -/

namespace Typing

theorem declare_settles (context : Context) (id : Nat) (declared : Variable) :
    Settles (declare context id declared) Context.names (Declares context.names declared) := by
  unfold declare
  split
  · rename_i refused
    refine (Decides.throw _).congr fun scopes parts => ⟨False.elim, fun ⟨declares, _⟩ => ?_⟩
    rcases Context.declares_iff.mp declares with ⟨_, accepted, _⟩
    cases refused.symm.trans accepted
  · rename_i extended accepted
    refine ((Settles.recordVariable id declared).bind fun _ =>
      Settles.pure extended).congr fun scopes parts => ?_
    constructor
    · rintro ⟨_, _, rfl, rfl⟩
      exact ⟨Context.declares_iff.mpr ⟨extended, accepted, rfl⟩, rfl⟩
    · rintro ⟨declares, rfl⟩
      rcases Context.declares_iff.mp declares with ⟨_, accepted', rfl⟩
      cases accepted.symm.trans accepted'
      exact ⟨(), trivial, rfl, rfl⟩

theorem initializerType_decides (context : Context) (name : String) (stated : Option Ty)
    (value : Option Expr) :
    Decides (initializerType context name stated value) id
      (Judgement.Initializes Finite context.names stated value) := by
  unfold initializerType
  cases value with
  | some value =>
      cases stated with
      | some stated =>
          refine ((value.check_decides context).bindSettles fun actual =>
            (Ty.require_settles stated actual).andThen fun _ =>
              Settles.pure stated).congr fun type parts => ?_
          constructor
          · rintro ⟨_, typed, _, assignable, rfl⟩
            exact .fits typed assignable
          · intro derived
            cases derived with
            | fits typed assignable => exact ⟨_, typed, (), assignable, rfl⟩
      | none =>
          refine ((value.check_decides context).bindSettles fun actual =>
            Settles.pure actual).congr fun type parts => ?_
          constructor
          · rintro ⟨_, typed, rfl⟩
            exact .infers typed
          · intro derived
            cases derived with
            | infers typed => exact ⟨_, typed, rfl⟩
  | none =>
      cases stated with
      | some stated =>
          refine (Settles.pure stated).congr fun type parts => ?_
          constructor
          · rintro ⟨rfl, rfl⟩
            exact .unset
          · rintro ⟨⟩
            exact ⟨rfl, rfl⟩
      | none => exact (Decides.throw _).congr fun type parts => ⟨False.elim, nofun⟩

theorem elementType_some_decides (context : Context) (stated : Ty) (elements : List Expr) :
    Decides (elementType context (some stated) elements) id fun type parts => ∃ types,
      Judgement.HaveTypes Finite context.names elements types parts ∧
        (∀ actual ∈ types, Assignable stated actual) ∧ type = stated := by
  induction elements with
  | nil =>
      refine (Settles.pure stated).congr fun type parts => ?_
      constructor
      · rintro ⟨rfl, rfl⟩
        exact ⟨[], .nil, nofun, rfl⟩
      · rintro ⟨_, ⟨⟩, _, rfl⟩
        exact ⟨rfl, rfl⟩
  | cons head tail induction =>
      unfold elementType
      refine ((head.check_decides context).bind fun actual =>
        (Ty.require_settles stated actual).bind fun _ => induction).congr fun type parts => ?_
      constructor
      · rintro ⟨_, _, _, headTyped, ⟨_, assignable, _, tailTyped, fit, rfl⟩, rfl⟩
        exact ⟨_, .cons headTyped tailTyped, List.forall_mem_cons.mpr ⟨assignable, fit⟩, rfl⟩
      · rintro ⟨_, typed, fit, rfl⟩
        cases typed with
        | cons headTyped tailTyped =>
            rcases List.forall_mem_cons.mp fit with ⟨assignable, fit⟩
            exact ⟨_, _, _, headTyped, ⟨(), assignable, _, tailTyped, fit, rfl⟩, rfl⟩

theorem elementType_decides (context : Context) (stated : Option Ty) (elements : List Expr) :
    Decides (elementType context stated elements) id
      (ElementsHaveType Finite context.names stated elements) := by
  cases stated with
  | some stated =>
      refine (elementType_some_decides context stated elements).congr fun type parts => ?_
      constructor
      · rintro ⟨types, typed, fit, rfl⟩
        exact ⟨typed, rfl, fit⟩
      · rintro ⟨typed, rfl, fit⟩
        exact ⟨_, typed, fit, rfl⟩
  | none =>
      cases elements with
      | nil =>
          refine (Settles.pure Ty.any).congr fun type parts => ?_
          constructor
          · rintro ⟨rfl, rfl⟩
            exact ⟨.nil, rfl, nofun⟩
          · rintro ⟨⟨⟩, rfl, _⟩
            exact ⟨rfl, rfl⟩
      | cons head tail =>
          unfold elementType
          refine ((head.check_decides context).bind fun actual =>
            elementType_some_decides context actual tail).congr fun type parts => ?_
          constructor
          · rintro ⟨_, _, _, headTyped, ⟨types, tailTyped, fit, rfl⟩, rfl⟩
            exact ⟨.cons headTyped tailTyped, rfl,
              List.forall_mem_cons.mpr ⟨.same _, fit⟩⟩
          · rintro ⟨typed, rfl, fit⟩
            cases typed with
            | cons headTyped tailTyped =>
                exact ⟨_, _, _, headTyped,
                  ⟨_, tailTyped, (List.forall_mem_cons.mp fit).2, rfl⟩, rfl⟩

end Typing

/-! ## Statements -/

mutual

/-- Checking a statement decides whether it is well typed, and in which scopes those after
it are. -/
theorem Stmt.check_decides (context : Context) : ∀ statement : Stmt,
    Decides (statement.check context) Context.names
      (Judgement.Typed Finite context.names statement)
  | .expression value => by
      unfold Stmt.check
      cases call : value.isCall with
      | false =>
          refine (Decides.throw _).congr fun scopes parts => ⟨False.elim, ?_⟩
          intro derived
          cases derived
          cases call
      | true =>
          refine ((value.check_decides context).bindSettles fun _ =>
            Settles.pure context).congr fun scopes parts => ?_
          constructor
          · rintro ⟨_, typed, rfl⟩
            cases value with
            | call node name arguments => exact .expression typed
            | _ => cases call
          · intro derived
            cases derived with
            | expression typed => exact ⟨_, typed, rfl⟩
  | .declaration id name typeName value => by
      refine ((Ty.ofOptionalName_settles typeName).bind fun stated =>
        (initializerType_decides context name stated value).bindSettles fun type =>
          declare_settles context id ⟨name, type, true⟩).congr fun scopes parts => ?_
      constructor
      · rintro ⟨_, states, _, initializes, declares⟩
        exact .declaration states initializes declares
      · intro derived
        cases derived with
        | declaration states initializes declares =>
            exact ⟨_, states, _, initializes, declares⟩
  | .assignment receiver value => by
      unfold Stmt.check
      cases receives : receiver.isReceiver with
      | false =>
          refine (Decides.throw _).congr fun scopes parts => ⟨False.elim, ?_⟩
          intro derived
          cases derived with
          | assignment receives' _ _ _ => cases receives.symm.trans receives'
      | true =>
          refine ((receiver.check_decides context).bind fun target =>
            (value.check_decides context).bindSettles fun actual =>
              (Ty.require_settles target actual).andThen fun _ =>
                Settles.pure context).congr fun scopes parts => ?_
          constructor
          · rintro ⟨_, _, _, receiverTyped, ⟨_, valueTyped, _, assignable, rfl⟩, rfl⟩
            exact .assignment receives receiverTyped valueTyped assignable
          · intro derived
            cases derived with
            | assignment _ receiverTyped valueTyped assignable =>
                exact ⟨_, _, _, receiverTyped, ⟨_, valueTyped, (), assignable, rfl⟩, rfl⟩
  | .conditional condition whenTrue whenFalse => by
      unfold Stmt.check
      cases whenTrue with
      | nil =>
          have refuses : Decides (throw .emptyBranch : Check Context) Context.names
              fun _ _ => False := .throw _
          refine ((condition.check_decides context).bind fun type =>
            (Ty.require_settles .boolean type).bind fun _ => refuses).congr
            fun scopes parts => ?_
          constructor
          · rintro ⟨_, _, _, _, ⟨_, _, ⟨⟩⟩, _⟩
          · intro derived
            cases derived with
            | conditional _ nonempty _ _ => exact absurd rfl nonempty
      | cons first rest =>
          refine ((condition.check_decides context).bind fun type =>
            (Ty.require_settles .boolean type).bind fun _ =>
              (Stmt.checkAll_decides context.nest (first :: rest)).bind fun _ =>
                (Stmt.checkAll_decides context.nest whenFalse).bindSettles fun _ =>
                  Settles.pure context).congr fun scopes parts => ?_
          constructor
          · rintro ⟨_, _, _, typed, ⟨_, assignable, _, _, _, trueTyped,
              ⟨_, falseTyped, rfl⟩, rfl⟩, rfl⟩
            cases assignable
            rw [← List.append_assoc]
            exact .conditional typed (List.cons_ne_nil _ _) trueTyped falseTyped
          · intro derived
            cases derived with
            | conditional typed _ trueTyped falseTyped =>
                exact ⟨_, _, _, typed, ⟨(), .same _, (), _, _, trueTyped,
                  ⟨(), falseTyped, rfl⟩, rfl⟩, List.append_assoc _ _ _⟩
  | .switch condition cases => by
      refine ((condition.check_decides context).bind fun type =>
        (Case.checkAll_decides context type cases).bindSettles fun _ =>
          Settles.pure context).congr fun scopes parts => ?_
      constructor
      · rintro ⟨_, _, _, typed, ⟨_, casesTyped, rfl⟩, rfl⟩
        exact .switch typed casesTyped
      · intro derived
        cases derived with
        | switch typed casesTyped =>
            exact ⟨_, _, _, typed, ⟨(), casesTyped, rfl⟩, rfl⟩
  | .loop condition body => by
      refine ((condition.check_decides context).bind fun type =>
        (Ty.require_settles .boolean type).bind fun _ =>
          (Stmt.checkAll_decides context.nest body).bindSettles fun _ =>
            Settles.pure context).congr fun scopes parts => ?_
      constructor
      · rintro ⟨_, _, _, typed, ⟨_, assignable, _, bodyTyped, rfl⟩, rfl⟩
        cases assignable
        exact .loop typed bodyTyped
      · intro derived
        cases derived with
        | loop typed bodyTyped =>
            exact ⟨_, _, _, typed, ⟨(), .same _, (), bodyTyped, rfl⟩, rfl⟩
  | .returns value => by
      refine ((findVariable_settles context "RETURN").bind fun expected =>
        (value.check_decides context).bindSettles fun actual =>
          (Ty.require_settles expected.type actual).andThen fun _ =>
            Settles.pure context).congr fun scopes parts => ?_
      constructor
      · rintro ⟨_, finds, _, typed, _, assignable, rfl⟩
        exact .returns finds typed assignable
      · intro derived
        cases derived with
        | returns finds typed assignable => exact ⟨_, finds, _, typed, (), assignable, rfl⟩

theorem Stmt.checkAll_decides (context : Context) : ∀ statements : List Stmt,
    Decides (Stmt.checkAll context statements) id fun _ =>
      Judgement.AllTyped Finite context.names statements
  | [] => by
      refine (Settles.pure ()).congr fun _ parts => ?_
      constructor
      · rintro ⟨_, rfl⟩
        exact .nil
      · rintro ⟨⟩
        exact ⟨rfl, rfl⟩
  | head :: tail => by
      refine ((head.check_decides context).bindView
        (fun scopes _ => Judgement.AllTyped Finite scopes tail) fun extended =>
          Stmt.checkAll_decides extended tail).congr fun _ parts => ?_
      constructor
      · rintro ⟨_, _, _, headTyped, tailTyped, rfl⟩
        exact .cons headTyped tailTyped
      · intro derived
        cases derived with
        | cons headTyped tailTyped => exact ⟨_, _, _, headTyped, tailTyped, rfl⟩

theorem Case.checkAll_decides (context : Context) (type : Ty) : ∀ cases : List Case,
    Decides (Case.checkAll context type cases) id fun _ =>
      Judgement.CasesTyped Finite context.names type cases
  | [] => by
      refine (Settles.pure ()).congr fun _ parts => ?_
      constructor
      · rintro ⟨_, rfl⟩
        exact .nil
      · rintro ⟨⟩
        exact ⟨rfl, rfl⟩
  | [.mk none body] => by
      refine ((Stmt.checkAll_decides context.nest body).bindSettles fun _ =>
        Settles.pure ()).congr fun _ parts => ?_
      constructor
      · rintro ⟨_, bodyTyped, _⟩
        exact .default bodyTyped
      · intro derived
        cases derived with
        | default bodyTyped => exact ⟨(), bodyTyped, rfl⟩
  | .mk none body :: next :: rest =>
      (Decides.throw _).congr fun _ _ => ⟨False.elim, nofun⟩
  | [.mk (some value) body] => by
      refine (Decides.throw _).congr fun _ _ => ⟨False.elim, fun derived => ?_⟩
      cases derived with
      | cons _ _ _ others _ => exact absurd rfl others
  | .mk (some value) body :: next :: rest => by
      refine (((value.check_decides context).bind fun actual =>
        (Ty.require_settles type actual).bind fun _ =>
          Stmt.checkAll_decides context.nest body).bind fun _ =>
            Case.checkAll_decides context type (next :: rest)).congr fun _ parts => ?_
      constructor
      · rintro ⟨_, _, _, ⟨_, _, _, typed, ⟨_, assignable, bodyTyped⟩, rfl⟩, tailTyped, rfl⟩
        exact .cons typed assignable bodyTyped (List.cons_ne_nil _ _) tailTyped
      · intro derived
        cases derived with
        | cons typed assignable bodyTyped _ tailTyped =>
            exact ⟨(), _, _, ⟨_, _, _, typed, ⟨(), assignable, bodyTyped⟩, rfl⟩, tailTyped, rfl⟩

end

end Plc
