import Plc.Proofs.Typing.Program

/-! The functions that a checked program calls. A call needs a function that its context knows,
and a context knows the functions of the host and those declared so far. So a function calls
itself, functions before it and the host, and nothing that comes later. -/

namespace Plc

open Typing

/-- What is called has an allowed name and arity, and nothing is a list. -/
def Expr.Permitted (allowed : String → Nat → Prop) : Expr → Prop
  | .call _ name arguments => allowed name arguments.length
  | .list _ _ => False
  | _ => True

theorem Expr.Permitted.mono {allowed more : String → Nat → Prop} {term : Expr}
    (permitted : term.Permitted allowed)
    (weaker : ∀ node name arguments, term = .call node name arguments →
      allowed name arguments.length → more name arguments.length) : term.Permitted more := by
  cases term with
  | call node name arguments => exact weaker node name arguments rfl permitted
  | _ => exact permitted

/-- The context has a function of that name and arity. -/
def Typing.Context.Knows (context : Context) (name : String) (arity : Nat) : Prop :=
  (context.lookupFunction name arity).isSome

section

variable {noted : Nat → Ty → Prop} {context extended : Context}

/-! ## Contexts that know the same functions -/

theorem Typing.Context.knows_nest (context : Context) : context.nest.Knows = context.Knows := by
  funext name arity
  rw [Knows, Context.lookupFunction_eq]
  rfl

theorem Typing.Context.knows_of_declare? {declared : Variable}
    (declares : context.declare? declared = some extended) : extended.Knows = context.Knows := by
  funext name arity
  rw [Knows, Context.lookupFunction_of_declare? declares]
  rfl

theorem Typing.Context.knows_of_declareFunction? {signature : Signature}
    (declares : context.declareFunction? signature = some extended) (name : String)
    (arity : Nat) :
    extended.Knows name arity ↔
      (name, arity) = (signature.name, signature.arity) ∨ context.Knows name arity := by
  rw [Knows, Context.lookupFunction_of_declareFunction? declares]
  by_cases same : (name, arity) = (signature.name, signature.arity)
  · simp [same]
  · rw [if_neg same]
    simp [same, Knows]

theorem Typing.knows_of_declareParameters {body : Context} {parameters : List (String × Ty)}
    (declares : declareParameters context parameters = .ok body) :
    body.Knows = context.Knows := by
  induction parameters generalizing context with
  | nil =>
      cases declares
      rfl
  | cons head tail induction =>
      rw [declareParameters] at declares
      split at declares
      · rename_i extended declared
        rw [induction declares, Context.knows_of_declare? declared]
      · cases declares

theorem Typing.knows_of_bodyContext {body : Context} {names : List String}
    {signature : Signature} (opens : bodyContext context names signature = .ok body) :
    body.Knows = context.Knows := by
  rw [knows_of_declareParameters opens]
  funext name arity
  rw [Context.Knows, Context.lookupFunction_eq]
  rfl

/-! ## Expressions and statements -/

mutual

theorem Expr.HasType.permitted {expression : Expr} {type : Ty}
    (typed : expression.HasType noted context type) :
    ∀ term ∈ expression.subterms, term.Permitted context.Knows := by
  cases typed with
  | literal _ _ | access _ _ => simp [Expr.subterms, Expr.Permitted]
  | group _ typed _ => exact List.forall_mem_cons.mpr ⟨trivial, typed.permitted⟩
  | binary leftTyped rightTyped _ _ =>
      exact List.forall_mem_cons.mpr ⟨trivial,
        List.forall_mem_append.mpr ⟨leftTyped.permitted, rightTyped.permitted⟩⟩
  | element indexTyped _ _ => exact List.forall_mem_cons.mpr ⟨trivial, indexTyped.permitted⟩
  | call typed lookup _ _ =>
      exact List.forall_mem_cons.mpr ⟨Option.isSome_of_eq_some lookup, typed.permitted⟩

theorem Expr.HaveTypes.permitted {expressions : List Expr} {types : List Ty}
    (typed : Expr.HaveTypes noted context expressions types) :
    ∀ term ∈ Expr.subtermsOfAll expressions, term.Permitted context.Knows := by
  cases typed with
  | nil => exact fun _ member => absurd member List.not_mem_nil
  | cons headTyped tailTyped =>
      exact List.forall_mem_append.mpr ⟨headTyped.permitted, tailTyped.permitted⟩

end

theorem Typing.Initializes.permitted {stated : Option Ty} {value : Option Expr} {type : Ty}
    (initializes : Initializes noted context stated value type) :
    ∀ term ∈ (value.map Expr.subterms).getD [], term.Permitted context.Knows := by
  cases initializes with
  | fits typed _ | infers typed => exact typed.permitted
  | unset => exact fun _ member => absurd member List.not_mem_nil

mutual

theorem Stmt.Typed.permitted {context extended : Context} {statement : Stmt}
    (typed : statement.Typed noted context extended) :
    (∀ term ∈ statement.subterms, term.Permitted context.Knows) ∧
      extended.Knows = context.Knows := by
  cases typed with
  | expression _ typed => exact ⟨typed.permitted, rfl⟩
  | declaration _ initializes declares =>
      exact ⟨initializes.permitted, Context.knows_of_declare? declares⟩
  | assignment _ receiverTyped valueTyped _ =>
      exact ⟨List.forall_mem_append.mpr ⟨receiverTyped.permitted, valueTyped.permitted⟩, rfl⟩
  | conditional conditionTyped _ trueTyped falseTyped =>
      have whenTrue := trueTyped.permitted
      have whenFalse := falseTyped.permitted
      rw [context.knows_nest] at whenTrue whenFalse
      exact ⟨List.forall_mem_append.mpr ⟨List.forall_mem_append.mpr
        ⟨conditionTyped.permitted, whenTrue⟩, whenFalse⟩, rfl⟩
  | switch conditionTyped casesTyped =>
      exact ⟨List.forall_mem_append.mpr ⟨conditionTyped.permitted, casesTyped.permitted⟩, rfl⟩
  | loop conditionTyped bodyTyped =>
      have body := bodyTyped.permitted
      rw [context.knows_nest] at body
      exact ⟨List.forall_mem_append.mpr ⟨conditionTyped.permitted, body⟩, rfl⟩
  | returns _ typed _ => exact ⟨typed.permitted, rfl⟩

theorem Stmt.AllTyped.permitted {context : Context} {statements : List Stmt}
    (typed : Stmt.AllTyped noted context statements) :
    ∀ term ∈ Stmt.subtermsOfAll statements, term.Permitted context.Knows := by
  cases typed with
  | nil => exact fun _ member => absurd member List.not_mem_nil
  | cons headTyped tailTyped =>
      have rest := tailTyped.permitted
      rw [headTyped.permitted.2] at rest
      exact List.forall_mem_append.mpr ⟨headTyped.permitted.1, rest⟩

theorem Stmt.CasesTyped.permitted {context : Context} {type : Ty} {cases : List Case}
    (typed : Stmt.CasesTyped noted context type cases) :
    ∀ term ∈ Case.subtermsOfAll cases, term.Permitted context.Knows := by
  cases typed with
  | nil => exact fun _ member => absurd member List.not_mem_nil
  | default bodyTyped =>
      have body := bodyTyped.permitted
      rw [context.knows_nest] at body
      simpa [Case.subtermsOfAll, Case.subterms] using body
  | cons valueTyped _ bodyTyped _ tailTyped =>
      have body := bodyTyped.permitted
      rw [context.knows_nest] at body
      exact List.forall_mem_append.mpr
        ⟨List.forall_mem_append.mpr ⟨valueTyped.permitted, body⟩, tailTyped.permitted⟩

end

end

/-! ## Programs -/

def Global.isList (declaration : Global) : Bool :=
  match declaration.value with
  | some (.list _ _) => true
  | _ => false

/-- The function is one of the host, or the program declares it before the one at `index`. -/
def Program.DeclaredBefore (program : Program) (index : Nat) (name : String) (arity : Nat) :
    Prop :=
  (name, arity) = ("print", 1) ∨
    ∃ earlier callee, earlier < index ∧ program.procedures[earlier]? = some callee ∧
      callee.name = name ∧ callee.parameters.length = arity

theorem Typing.Context.knows_standard {name : String} {arity : Nat}
    (knows : Context.standard.Knows name arity) : (name, arity) = ("print", 1) := by
  have declares : Context.empty.declareFunction? .print = some Context.standard := rfl
  rcases (Context.knows_of_declareFunction? declares name arity).mp knows with same | unknown
  · exact same
  · cases unknown

section

variable {noted : Nat → Ty → Prop} {context last : Context}

theorem Typing.Sequence.knows_globals {declarations : List Global}
    (sequence : Sequence (Global.Typed noted) context declarations last) :
    last.Knows = context.Knows := by
  induction sequence with
  | nil => rfl
  | cons head tail induction =>
      rw [induction]
      cases head with
      | list _ _ _ _ declares | plain _ _ declares => exact Context.knows_of_declare? declares

theorem Typing.Sequence.permitted_globals {declarations : List Global}
    (sequence : Sequence (Global.Typed noted) context declarations last)
    (noLists : ∀ declaration ∈ declarations, declaration.isList = false) :
    ∀ declaration ∈ declarations, ∀ term ∈ declaration.subterms,
      term.Permitted context.Knows := by
  induction sequence with
  | nil => exact fun _ member => absurd member List.not_mem_nil
  | @cons context middle last declaration declarations head tail induction =>
      rcases List.forall_mem_cons.mp noLists with ⟨notList, noLists⟩
      refine List.forall_mem_cons.mpr ⟨?_, ?_⟩
      · cases head with
        | list isList _ _ _ _ =>
            rw [Global.isList, isList] at notList
            cases notList
        | plain _ initializes _ => exact initializes.permitted
      · have same := (Sequence.cons head .nil).knows_globals
        rw [← same]
        exact induction noLists

theorem Typing.Sequence.permitted_procedures {procedures : List Procedure}
    (sequence : Sequence (Procedure.Typed noted) context procedures last) (index : Nat)
    (procedure : Procedure) (found : procedures[index]? = some procedure) :
    ∀ term ∈ procedure.subterms, term.Permitted fun name arity =>
      context.Knows name arity ∨
        ∃ earlier callee, earlier ≤ index ∧ procedures[earlier]? = some callee ∧
          callee.name = name ∧ callee.parameters.length = arity := by
  induction sequence generalizing index with
  | nil => cases found
  | @cons context middle last head tail headTyped tailTyped induction =>
      rcases headTyped with ⟨signature, body, signs, declares, opens, typed⟩
      have signed := Procedure.signed signs
      have known : ∀ name arity, middle.Knows name arity →
          context.Knows name arity ∨ head.name = name ∧ head.parameters.length = arity := by
        intro name arity knows
        rcases (Context.knows_of_declareFunction? declares name arity).mp knows with same | old
        · cases same
          exact .inr ⟨signed.name.symm, signed.length.symm⟩
        · exact .inl old
      cases index with
      | zero =>
          cases found
          intro term member
          have permitted := typed.permitted term member
          rw [knows_of_bodyContext opens] at permitted
          apply permitted.mono
          intro _ name arguments _ knows
          exact (known name arguments.length knows).imp_right fun same =>
            ⟨0, procedure, Nat.le_refl _, rfl, same⟩
      | succ index =>
          intro term member
          apply (induction index found term member).mono
          rintro _ name arguments _ (knows | ⟨earlier, callee, before, declared, same⟩)
          · exact (known name arguments.length knows).imp_right fun same =>
              ⟨0, head, Nat.zero_le _, rfl, same⟩
          · exact .inr ⟨earlier + 1, callee, Nat.succ_le_succ before, declared, same⟩

end

end Plc
