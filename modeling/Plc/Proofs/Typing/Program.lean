import Plc.Proofs.Typing.Context
import Plc.Proofs.Typing.Derivation

/-! The declarations of a program, one after the other: what is known stays known,
and no two functions have both name and arity in common. -/

namespace Plc

open Typing

/-! ## Signatures -/

private theorem ok_bind (value : α) (next : α → Except ε β) :
    (Except.ok value >>= next) = next value := rfl

private theorem mapM_ok {convert : α → Except ε β} {values : List α} {results : List β}
    (converted : values.mapM convert = .ok results) :
    results.length = values.length ∧ ∀ (index : Nat) value result, values[index]? = some value →
      results[index]? = some result → convert value = .ok result := by
  induction values generalizing results with
  | nil =>
      cases converted
      exact ⟨rfl, fun _ _ _ impossible => by cases impossible⟩
  | cons head tail induction =>
      rw [List.mapM_cons] at converted
      cases first : convert head with
      | error error =>
          rw [first] at converted
          cases converted
      | ok result =>
          rw [first] at converted
          cases rest : tail.mapM convert with
          | error error =>
              rw [ok_bind, rest] at converted
              cases converted
          | ok others =>
              rw [ok_bind, rest] at converted
              cases converted
              refine ⟨congrArg Nat.succ (induction rest).1, fun index value given found made => ?_⟩
              cases index with
              | zero =>
                  cases found
                  cases made
                  exact first
              | succ index => exact (induction rest).2 index value given found made

/-- The type is the one the name stands for, or the given one where there is no name. -/
def Ty.IsNamed (type : Ty) (typeName : Option String) (otherwise : Ty) : Prop :=
  match typeName with
  | some name => Ty.ofName? name = some type
  | none => type = otherwise

theorem Ty.isNamed_of_ofOptionalName {typeName : Option String} {stated : Option Ty}
    (named : Ty.ofOptionalName typeName = .ok stated) (otherwise : Ty) :
    (stated.getD otherwise).IsNamed typeName otherwise := by
  cases typeName with
  | none =>
      cases named
      rfl
  | some name =>
      rw [Ty.ofOptionalName] at named
      split at named
      · rename_i found known
        cases named
        exact known
      · cases named

/-- What a signature takes from its procedure. -/
structure Procedure.Signed (procedure : Procedure) (signature : Signature) : Prop where
  name : signature.name = procedure.name
  length : signature.parameters.length = procedure.parameters.length
  parameters : ∀ (index : Nat) (parameter : Parameter) (type : Ty),
    procedure.parameters[index]? = some parameter → signature.parameters[index]? = some type →
      type.IsNamed parameter.typeName .any
  result : signature.result.IsNamed procedure.resultTypeName .nil

theorem Procedure.signed {procedure : Procedure} {signature : Signature}
    (signs : procedure.signature = .ok signature) : procedure.Signed signature := by
  unfold Procedure.signature at signs
  cases mapped : procedure.parameters.mapM fun parameter => do
      return (← Ty.ofOptionalName parameter.typeName).getD .any with
  | error error =>
      rw [mapped] at signs
      cases signs
  | ok parameters =>
      rw [mapped] at signs
      cases named : Ty.ofOptionalName procedure.resultTypeName with
      | error error =>
          rw [ok_bind, named] at signs
          cases signs
      | ok stated =>
          rw [ok_bind, named] at signs
          cases signs
          refine ⟨rfl, (mapM_ok mapped).1, fun index parameter type given made => ?_,
            Ty.isNamed_of_ofOptionalName named .nil⟩
          have converted := (mapM_ok mapped).2 index parameter type given made
          cases stated : Ty.ofOptionalName parameter.typeName with
          | error error =>
              rw [stated] at converted
              cases converted
          | ok stated' =>
              rw [stated] at converted
              cases converted
              exact Ty.isNamed_of_ofOptionalName stated .any

/-! ## Declarations in sequence -/

section

variable {noted : Nat → Ty → Prop} {context last : Context}

theorem Global.Typed.outer {declaration : Global} {extended : Context}
    (typed : declaration.Typed noted context extended) : extended.outer = context.outer := by
  cases typed with
  | list _ _ _ _ declares | plain _ _ declares => exact Context.outer_of_declare? declares

theorem Global.Typed.inner_lookupFunction {declaration : Global} {extended : Context}
    (typed : declaration.Typed noted context extended) (name : String) (arity : Nat) :
    extended.inner.lookupFunction name arity = context.inner.lookupFunction name arity := by
  cases typed with
  | list _ _ _ _ declares | plain _ _ declares =>
      exact Context.inner_lookupFunction_of_declare? declares name arity

theorem Typing.Sequence.globals {declarations : List Global}
    (sequence : Sequence (Global.Typed noted) context declarations last) :
    last.outer = context.outer ∧ ∀ name arity,
      last.inner.lookupFunction name arity = context.inner.lookupFunction name arity := by
  induction sequence with
  | nil => exact ⟨rfl, fun _ _ => rfl⟩
  | cons head tail induction =>
      exact ⟨induction.1.trans head.outer, fun name arity =>
        (induction.2 name arity).trans (head.inner_lookupFunction name arity)⟩

theorem Typing.Sequence.procedures_below {procedures : List Procedure}
    (sequence : Sequence (Procedure.Typed noted) context procedures last)
    (outermost : context.outer = []) :
    context.Below last := by
  induction sequence with
  | nil => exact .refl _
  | cons head tail induction =>
      rcases head with ⟨signature, body, signs, declares, opens, typed⟩
      have outer := (Context.outer_of_declareFunction? declares).trans outermost
      exact (Context.Below.of_declareFunction? outermost declares).trans (induction outer)

theorem Typing.Sequence.fresh {procedures : List Procedure}
    (sequence : Sequence (Procedure.Typed noted) context procedures last)
    (outermost : context.outer = []) {procedure : Procedure}
    (member : procedure ∈ procedures) :
    context.lookupFunction procedure.name procedure.parameters.length = none := by
  induction sequence with
  | nil => cases member
  | @cons context middle last head tail headTyped tailTyped induction =>
      rcases headTyped with ⟨signature, body, signs, declares, opens, typed⟩
      have signed := Procedure.signed signs
      rcases List.mem_cons.mp member with rfl | member
      · rw [← Context.inner_lookupFunction_eq outermost, ← signed.name, ← signed.length]
        exact Context.inner_lookupFunction_of_declareFunction? declares
      · have outer := (Context.outer_of_declareFunction? declares).trans outermost
        have unknown := induction outer member
        rw [Context.lookupFunction_of_declareFunction? declares] at unknown
        split at unknown
        · cases unknown
        · exact unknown

theorem Typing.Sequence.find?_procedure {procedures : List Procedure}
    (sequence : Sequence (Procedure.Typed noted) context procedures last)
    (outermost : context.outer = []) {procedure : Procedure}
    (member : procedure ∈ procedures) :
    procedures.find? (fun other => other.name == procedure.name &&
      other.parameters.length == procedure.parameters.length) = some procedure := by
  induction sequence with
  | nil => cases member
  | @cons context middle last head tail headTyped tailTyped induction =>
      rcases headTyped with ⟨signature, body, signs, declares, opens, typed⟩
      have signed := Procedure.signed signs
      have outer := (Context.outer_of_declareFunction? declares).trans outermost
      rcases List.mem_cons.mp member with rfl | later
      · simp
      · have unknown := tailTyped.fresh outer later
        have different : ¬(head.name = procedure.name ∧
            head.parameters.length = procedure.parameters.length) := by
          rintro ⟨sameName, sameLength⟩
          rw [Context.lookupFunction_of_declareFunction? declares, ← sameName, ← sameLength,
            signed.name, Signature.arity, signed.length, if_pos rfl] at unknown
          cases unknown
        rw [List.find?_cons_of_neg (by simpa using different)]
        exact induction outer later

end

end Plc
