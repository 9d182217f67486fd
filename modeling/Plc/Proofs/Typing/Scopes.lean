import Plc.Proofs.Typing.Context
import Plc.Proofs.Typing.Decides
import Plc.Proofs.Value.Admits

/-! What the checker knows and asks at each step, in the terms of the rules. -/

namespace Plc

open Typing Judgement

open Check (Decides Settles)

/-! ## Contexts -/

namespace Typing

def Scope.names (scope : Scope Variable Signature) : Names :=
  ⟨scope.lookup, scope.lookupFunction⟩

def Context.names (context : Context) : Scopes :=
  context.scopes.map Scope.names

end Typing

theorem Judgement.finds_iff {entry : Names → Option α} {scopes : Scopes} {found : α} :
    Finds entry scopes found ↔ scopes.findSome? entry = some found := by
  induction scopes with
  | nil =>
      constructor
      · rintro ⟨⟩
      · rintro ⟨⟩
  | cons names outer induction =>
      rw [List.findSome?_cons]
      cases has : entry names with
      | some other =>
          constructor
          · rintro (has' | ⟨lacks, _⟩)
            · exact has.symm.trans has'
            · cases has.symm.trans lacks
          · rintro ⟨⟩
            exact .here has
      | none =>
          rw [← induction]
          constructor
          · rintro (has' | ⟨_, later⟩)
            · cases has.symm.trans has'
            · exact later
          · exact .outward has

namespace Typing.Context

theorem finds_variable_iff {context : Context} {name : String} {found : Variable} :
    Finds (·.variableOf name) context.names found ↔ context.lookup name = some found := by
  rw [finds_iff, names, List.findSome?_map]
  rfl

theorem finds_function_iff {context : Context} {name : String} {arity : Nat}
    {found : Signature} :
    Finds (·.functionOf name arity) context.names found ↔
      context.lookupFunction name arity = some found := by
  rw [finds_iff, names, List.findSome?_map]
  rfl

@[simp] theorem names_nest (context : Context) :
    context.nest.names = Names.none :: context.names := rfl

theorem declares_iff {context : Context} {declared : Variable} {scopes : Scopes} :
    Declares context.names declared scopes ↔
      ∃ extended, context.declare? declared = some extended ∧ extended.names = scopes := by
  cases found : context.inner.lookup declared.name with
  | some taken =>
      have refused : context.declare? declared = none := by
        simp [declare?, Scope.defineVariable?, found]
      constructor
      · rintro ⟨fresh⟩
        cases found.symm.trans fresh
      · rintro ⟨_, declares, _⟩
        cases refused.symm.trans declares
  | none =>
      have accepted : ∃ inner, context.inner.defineVariable? declared.name declared =
          some inner := ⟨_, by rw [Scope.defineVariable?, found]⟩
      rcases accepted with ⟨inner, defined⟩
      have declares : context.declare? declared = some { context with inner } := by
        rw [declare?, defined]
        rfl
      have grown : Scope.names inner = (Scope.names context.inner).addVariable declared := by
        refine congrArg₂ Names.mk (funext fun name => ?_) (funext₂ fun name arity => ?_)
        · rw [Scope.lookup_of_defineVariable? defined]
          exact (Function.update_apply _ _ _ _).symm
        · exact Scope.lookupFunction_of_defineVariable? defined name arity
      have extended : ({ context with inner } : Context).names =
          (Scope.names context.inner).addVariable declared :: context.outer.map Scope.names :=
        congrArg (· :: _) grown
      constructor
      · rintro ⟨_⟩
        exact ⟨_, declares, extended⟩
      · rintro ⟨_, declares', rfl⟩
        cases declares.symm.trans declares'
        rw [extended]
        exact .intro found

theorem declaresFunction_iff {context : Context} {signature : Signature} {scopes : Scopes} :
    DeclaresFunction context.names signature scopes ↔
      ∃ extended, context.declareFunction? signature = some extended ∧
        extended.names = scopes := by
  cases found : context.inner.lookupFunction signature.name signature.arity with
  | some taken =>
      have refused : context.declareFunction? signature = none := by
        simp [declareFunction?, Scope.defineFunction?, found]
      constructor
      · rintro ⟨fresh⟩
        cases found.symm.trans fresh
      · rintro ⟨_, declares, _⟩
        cases refused.symm.trans declares
  | none =>
      have accepted : ∃ inner, context.inner.defineFunction? signature.name signature.arity
          signature = some inner := ⟨_, by rw [Scope.defineFunction?, found]⟩
      rcases accepted with ⟨inner, defined⟩
      have declares : context.declareFunction? signature = some { context with inner } := by
        rw [declareFunction?, defined]
        rfl
      have grown : Scope.names inner = (Scope.names context.inner).addFunction signature := by
        refine congrArg₂ Names.mk (funext fun name => ?_) (funext₂ fun name arity => ?_)
        · exact Scope.lookup_of_defineFunction? defined name
        · exact Scope.lookupFunction_of_defineFunction? defined name arity
      have extended : ({ context with inner } : Context).names =
          (Scope.names context.inner).addFunction signature ::
            context.outer.map Scope.names :=
        congrArg (· :: _) grown
      constructor
      · rintro ⟨_⟩
        exact ⟨_, declares, extended⟩
      · rintro ⟨_, declares', rfl⟩
        cases declares.symm.trans declares'
        rw [extended]
        exact .intro found

end Typing.Context

/-! ## Types -/

theorem Judgement.assignable_iff {target actual : Ty} :
    Assignable target actual ↔ target.accepts actual = true := by
  constructor
  · rintro (_ | _ | ordered)
    · exact Ty.accepts_self _
    · rfl
    · revert ordered
      cases actual <;> decide
  · intro accepts
    by_cases same : target = actual
    · exact same ▸ .same target
    · cases target with
      | any => exact .any actual
      | comparable =>
          refine .comparable ?_
          revert accepts
          cases actual <;> simp [Ty.accepts] at same ⊢
      | nil | boolean | integer | decimal | character | string =>
          exact absurd (beq_iff_eq.mp accepts) same

theorem Ty.require_settles (target actual : Ty) :
    Settles (liftM (target.require actual)) id fun _ => Assignable target actual :=
  .lift fun done => by
    rw [assignable_iff]
    exact ⟨fun accepts => ⟨done, Ty.require_eq_ok_iff.mpr accepts, rfl⟩,
      fun ⟨_, accepted, _⟩ => Ty.require_eq_ok_iff.mp accepted⟩

theorem Judgement.stated_iff {typeName : Option String} {stated : Option Ty} :
    Stated typeName stated ↔ Ty.ofOptionalName typeName = .ok stated := by
  cases typeName with
  | none =>
      constructor
      · rintro ⟨⟩
        rfl
      · rintro ⟨⟩
        exact .unnamed
  | some name =>
      constructor
      · rintro (_ | type)
        simp [Ty.ofOptionalName, Ty.ofName?_name]
      · intro named
        rw [Ty.ofOptionalName] at named
        split at named
        · rename_i type known
          cases named
          have written : type.name = name := by
            simpa using List.find?_some known
          exact written ▸ .named type
        · cases named

theorem Ty.ofOptionalName_settles (typeName : Option String) :
    Settles (liftM (Ty.ofOptionalName typeName)) id (Stated typeName) :=
  .lift fun stated => by simp [stated_iff]

theorem Judgement.literalType_iff {value : Literal} {type : Ty} :
    LiteralType (·.fitsBinary64 = true) value type ↔ value.type = .ok type := by
  constructor
  · rintro (_ | _ | ⟨atLeast, below⟩ | fits | _ | _)
    · rfl
    · rfl
    · rw [Literal.type, if_pos (by omega)]
    · rw [Literal.type, if_pos fits]
    · rfl
    · rfl
  · intro typed
    cases value with
    | integer value =>
        rw [Literal.type] at typed
        split at typed
        · cases typed
          exact .integer (by omega) (by omega)
        · cases typed
    | decimal value =>
        rw [Literal.type] at typed
        split at typed
        · cases typed
          exact .decimal ‹_›
        · cases typed
    | _ =>
        cases typed
        constructor

theorem Judgement.operatorType_iff {operator : Operator} {left right type : Ty} :
    OperatorType operator left right type ↔ operator.type left right = .ok type := by
  constructor
  · rintro (among | ⟨among, ordered⟩ | text | ⟨among, number⟩ | number)
    · cases operator <;> first | rfl | exact absurd among (by decide)
    · have accepts := assignable_iff.mp ordered
      cases operator <;> first
        | exact absurd among (by decide)
        | cases left <;> first | rfl | cases accepts
    · exact if_pos text
    · have numeric : left = .integer ∨ left = .decimal := by simpa using number
      rcases numeric with rfl | rfl
      all_goals cases operator <;> first | rfl | exact absurd among (by decide)
    · have numeric : left = .integer ∨ left = .decimal := by simpa using number
      rcases numeric with rfl | rfl <;> rfl
  · intro typed
    have numeric {operator : Operator} {left right type : Ty}
        (among : operator ∈ [Operator.add, .subtract, .multiply, .divide])
        (operands : Operator.Numeric left right type) :
        OperatorType operator left right type := by
      rcases operands with ⟨rfl, rfl, rfl⟩ | ⟨rfl, rfl, rfl⟩ <;>
        exact .arithmetic among (by decide)
    cases operator with
    | and | or =>
        rcases Operator.type_logical rfl typed with ⟨rfl, rfl, rfl⟩
        exact .logical (by decide)
    | less | greater | equal | notEqual =>
        rcases Operator.type_comparison rfl typed with ⟨rfl, rfl⟩
        refine .comparison (by decide) (assignable_iff.mpr ?_)
        cases left <;> first | rfl | cases typed
    | add =>
        rcases Operator.type_add typed with ⟨text, rfl⟩ | operands
        · exact .concatenation text
        · exact numeric (by decide) operands
    | subtract | multiply | divide =>
        exact numeric (by decide) (Operator.type_arithmetic typed)
    | power =>
        rcases Operator.type_power typed with ⟨rfl, rfl, rfl⟩ | ⟨rfl, rfl, rfl⟩ <;>
          exact .power (by decide)

end Plc
