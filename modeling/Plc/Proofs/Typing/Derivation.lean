import Plc.Typing.Check

/-! The rules of typing, apart from the order in which a checker applies them.
A context is immutable: what follows a declaration in its block is typed in a
larger one. Each rule also asks that the type it gives to an expression is
`noted` under the number of that expression. -/

namespace Plc

open Typing

/-! ## Expressions -/

mutual

inductive Expr.HasType (noted : Nat → Ty → Prop) (context : Context) : Expr → Ty → Prop where
  | literal {node : Node} {value : Literal} {type : Ty}
      (typed : value.type = .ok type) (note : noted node.id type) :
      HasType noted context (.literal node value) type
  | group {node : Node} {inner : Expr} {type : Ty}
      (binary : inner.isBinary = true) (typed : HasType noted context inner type)
      (note : noted node.id type) :
      HasType noted context (.group node inner) type
  | binary {node : Node} {operator : Operator} {left right : Expr} {leftType rightType type : Ty}
      (leftTyped : HasType noted context left leftType)
      (rightTyped : HasType noted context right rightType)
      (operation : operator.type leftType rightType = .ok type)
      (note : noted node.id type) :
      HasType noted context (.binary node operator left right) type
  | access {node : Node} {name : String} {found : Variable}
      (lookup : context.lookup name = some found)
      (note : noted node.id found.type) :
      HasType noted context (.access node name) found.type
  | element {node : Node} {name : String} {index : Expr} {found : Variable}
      (indexTyped : HasType noted context index .integer)
      (lookup : context.lookup name = some found)
      (note : noted node.id found.type) :
      HasType noted context (.element node name index) found.type
  | call {node : Node} {name : String} {arguments : List Expr} {types : List Ty}
      {found : Signature} (typed : HaveTypes noted context arguments types)
      (lookup : context.lookupFunction name arguments.length = some found)
      (fits : ∀ pair ∈ found.parameters.zip types, pair.1.accepts pair.2 = true)
      (note : noted node.id found.result) :
      HasType noted context (.call node name arguments) found.result

inductive Expr.HaveTypes (noted : Nat → Ty → Prop) (context : Context) :
    List Expr → List Ty → Prop where
  | nil : HaveTypes noted context [] []
  | cons {head : Expr} {tail : List Expr} {type : Ty} {types : List Ty}
      (headTyped : HasType noted context head type)
      (tailTyped : HaveTypes noted context tail types) :
      HaveTypes noted context (head :: tail) (type :: types)

end

theorem Expr.HasType.note {noted : Nat → Ty → Prop} {context : Context}
    {expression : Expr} {type : Ty} (typed : expression.HasType noted context type) :
    noted expression.node.id type := by
  cases typed <;> assumption

theorem Expr.HaveTypes.length_eq {noted : Nat → Ty → Prop} {context : Context}
    {expressions : List Expr} {types : List Ty}
    (typed : Expr.HaveTypes noted context expressions types) :
    expressions.length = types.length := by
  induction expressions generalizing types with
  | nil =>
      cases typed
      rfl
  | cons head tail induction =>
      cases typed with
      | cons _ tailTyped => simp [induction tailTyped]

/-- The type of a declared variable: the stated one, which the value has to fit,
or else the value's. -/
inductive Typing.Initializes (noted : Nat → Ty → Prop) (context : Context) :
    Option Ty → Option Expr → Ty → Prop where
  | fits {value : Expr} {stated actual : Ty}
      (typed : value.HasType noted context actual) (accepts : stated.accepts actual = true) :
      Initializes noted context (some stated) (some value) stated
  | infers {value : Expr} {actual : Ty} (typed : value.HasType noted context actual) :
      Initializes noted context none (some value) actual
  | unset {stated : Ty} : Initializes noted context (some stated) none stated

/-- The type of the elements of a list: the stated one, else the first element's,
else any. -/
inductive Typing.Elements (noted : Nat → Ty → Prop) (context : Context) :
    Option Ty → List Expr → Ty → Prop where
  | nil {stated : Option Ty} : Elements noted context stated [] (stated.getD .any)
  | fits {head : Expr} {tail : List Expr} {stated actual type : Ty}
      (typed : head.HasType noted context actual) (accepts : stated.accepts actual = true)
      (rest : Elements noted context (some stated) tail type) :
      Elements noted context (some stated) (head :: tail) type
  | infers {head : Expr} {tail : List Expr} {actual type : Ty}
      (typed : head.HasType noted context actual)
      (rest : Elements noted context (some actual) tail type) :
      Elements noted context none (head :: tail) type

theorem Typing.Elements.eq_stated {noted : Nat → Ty → Prop} {context : Context}
    {stated : Ty} {elements : List Expr} {type : Ty}
    (typed : Elements noted context (some stated) elements type) : type = stated := by
  induction elements with
  | nil =>
      cases typed
      rfl
  | cons head tail induction =>
      cases typed with
      | fits _ _ rest => exact induction rest

theorem Typing.Elements.haveTypes {noted : Nat → Ty → Prop} {context : Context}
    {stated : Option Ty} {elements : List Expr} {type : Ty}
    (typed : Elements noted context stated elements type) :
    ∃ types, Expr.HaveTypes noted context elements types ∧
      ∀ actual ∈ types, type.accepts actual = true := by
  induction typed with
  | nil => exact ⟨[], .nil, fun _ member => absurd member List.not_mem_nil⟩
  | fits typed accepts rest induction =>
      rcases induction with ⟨types, restTyped, fit⟩
      rw [rest.eq_stated] at fit ⊢
      exact ⟨_ :: types, .cons typed restTyped, List.forall_mem_cons.mpr ⟨accepts, fit⟩⟩
  | infers typed rest induction =>
      rcases induction with ⟨types, restTyped, fit⟩
      rw [rest.eq_stated] at fit ⊢
      exact ⟨_ :: types, .cons typed restTyped,
        List.forall_mem_cons.mpr ⟨Ty.accepts_self _, fit⟩⟩

/-! ## Statements -/

mutual

/-- The statement is well typed in `context`, and those after it in the same block
are typed in the second context. -/
inductive Stmt.Typed (noted : Nat → Ty → Prop) : Context → Stmt → Context → Prop where
  | expression {context : Context} {value : Expr} {type : Ty}
      (call : value.isCall = true) (typed : value.HasType noted context type) :
      Typed noted context (.expression value) context
  | declaration {context extended : Context} {id : Nat} {name : String}
      {typeName : Option String} {stated : Option Ty} {value : Option Expr} {type : Ty}
      (named : Ty.ofOptionalName typeName = .ok stated)
      (initializes : Initializes noted context stated value type)
      (declares : context.declare? ⟨name, type, true⟩ = some extended) :
      Typed noted context (.declaration id name typeName value) extended
  | assignment {context : Context} {receiver value : Expr} {target actual : Ty}
      (receives : receiver.isReceiver = true)
      (receiverTyped : receiver.HasType noted context target)
      (valueTyped : value.HasType noted context actual)
      (accepts : target.accepts actual = true) :
      Typed noted context (.assignment receiver value) context
  | conditional {context : Context} {condition : Expr} {whenTrue whenFalse : List Stmt}
      (conditionTyped : condition.HasType noted context .boolean)
      (nonempty : whenTrue.isEmpty = false)
      (trueTyped : AllTyped noted context.nest whenTrue)
      (falseTyped : AllTyped noted context.nest whenFalse) :
      Typed noted context (.conditional condition whenTrue whenFalse) context
  | switch {context : Context} {condition : Expr} {cases : List Case} {type : Ty}
      (conditionTyped : condition.HasType noted context type)
      (casesTyped : CasesTyped noted context type cases) :
      Typed noted context (.switch condition cases) context
  | loop {context : Context} {condition : Expr} {body : List Stmt}
      (conditionTyped : condition.HasType noted context .boolean)
      (bodyTyped : AllTyped noted context.nest body) :
      Typed noted context (.loop condition body) context
  | returns {context : Context} {value : Expr} {expected : Variable} {actual : Ty}
      (lookup : context.lookup "RETURN" = some expected)
      (typed : value.HasType noted context actual)
      (accepts : expected.type.accepts actual = true) :
      Typed noted context (.returns value) context

inductive Stmt.AllTyped (noted : Nat → Ty → Prop) : Context → List Stmt → Prop where
  | nil {context : Context} : AllTyped noted context []
  | cons {context extended : Context} {head : Stmt} {tail : List Stmt}
      (headTyped : Typed noted context head extended)
      (tailTyped : AllTyped noted extended tail) :
      AllTyped noted context (head :: tail)

/-- The last case is the default; the values of the others fit `type`. -/
inductive Stmt.CasesTyped (noted : Nat → Ty → Prop) : Context → Ty → List Case → Prop where
  | nil {context : Context} {type : Ty} : CasesTyped noted context type []
  | default {context : Context} {type : Ty} {body : List Stmt}
      (bodyTyped : AllTyped noted context.nest body) :
      CasesTyped noted context type [.mk none body]
  | cons {context : Context} {type actual : Ty} {value : Expr} {body : List Stmt}
      {tail : List Case} (valueTyped : value.HasType noted context actual)
      (accepts : type.accepts actual = true)
      (bodyTyped : AllTyped noted context.nest body)
      (others : tail.isEmpty = false)
      (tailTyped : CasesTyped noted context type tail) :
      CasesTyped noted context type (.mk (some value) body :: tail)

end

/-! ## Programs -/

inductive Global.Typed (noted : Nat → Ty → Prop) (context : Context) (declaration : Global)
    (extended : Context) : Prop where
  | list {node : Node} {elements : List Expr} {stated : Option Ty} {type : Ty}
      (isList : declaration.value = some (.list node elements))
      (named : Ty.ofOptionalName declaration.typeName = .ok stated)
      (elementsTyped : Elements noted context stated elements type)
      (note : noted node.id type)
      (declares : context.declare? ⟨declaration.name, type, declaration.isMutable⟩ =
        some extended)
  | plain {stated : Option Ty} {type : Ty}
      (named : Ty.ofOptionalName declaration.typeName = .ok stated)
      (initializes : Initializes noted context stated declaration.value type)
      (declares : context.declare? ⟨declaration.name, type, declaration.isMutable⟩ =
        some extended)

/-- The function is known to its own body and to what follows it. -/
def Procedure.Typed (noted : Nat → Ty → Prop) (context : Context) (procedure : Procedure)
    (extended : Context) : Prop :=
  ∃ signature body, procedure.signature = .ok signature ∧
    context.declareFunction? signature = some extended ∧
    bodyContext extended (procedure.parameters.map (·.name)) signature = .ok body ∧
    Stmt.AllTyped noted body procedure.body

/-- Declarations one after the other, from the first context to the last. -/
inductive Typing.Sequence (typed : Context → α → Context → Prop) :
    Context → List α → Context → Prop where
  | nil {context : Context} : Sequence typed context [] context
  | cons {context middle last : Context} {declaration : α} {declarations : List α}
      (head : typed context declaration middle)
      (tail : Sequence typed middle declarations last) :
      Sequence typed context (declaration :: declarations) last

/-- Globals come first and functions after them; one of the functions is `main`. -/
def Program.Typed (noted : Nat → Ty → Prop) (context : Context) (program : Program) : Prop :=
  ∃ middle last,
    Sequence (Global.Typed noted) context program.globals middle ∧
    Sequence (Procedure.Typed noted) middle program.procedures last ∧
    requireMain last = .ok ()

end Plc
