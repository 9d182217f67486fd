import Plc.Proofs.Machine.Moment
import Plc.Proofs.Typing.Sound
import Plc.Proofs.Value.Admits

/-! The programs whose runs never meet a value of the wrong type. What keeps other
well-typed programs from it is left out here: lists, variables without a first
value, functions that may end without a result, and orders and powers that are
defined for fewer values than types say. -/

namespace Plc

open Typing

/-! ## The statements of a program -/

mutual

/-- The statement and all statements in it, each before its parts. -/
def Stmt.nested : Stmt → List Stmt
  | .expression value => [.expression value]
  | .declaration id name typeName value => [.declaration id name typeName value]
  | .assignment receiver value => [.assignment receiver value]
  | .conditional condition whenTrue whenFalse =>
      .conditional condition whenTrue whenFalse ::
        (Stmt.nestedInAll whenTrue ++ Stmt.nestedInAll whenFalse)
  | .switch condition cases => .switch condition cases :: Case.nestedInAll cases
  | .loop condition body => .loop condition body :: Stmt.nestedInAll body
  | .returns value => [.returns value]

def Stmt.nestedInAll : List Stmt → List Stmt
  | [] => []
  | head :: tail => head.nested ++ Stmt.nestedInAll tail

def Case.nestedInAll : List Case → List Stmt
  | [] => []
  | .mk _ body :: tail => Stmt.nestedInAll body ++ Case.nestedInAll tail

end

theorem Expr.mem_subterms_self (expression : Expr) : expression ∈ expression.subterms := by
  cases expression <;> exact List.mem_cons_self

mutual

theorem Stmt.subterms_of_nested {inner statement : Stmt} (member : inner ∈ statement.nested) :
    inner.subterms ⊆ statement.subterms := by
  cases statement with
  | expression _ | declaration _ _ _ _ | assignment _ _ | returns _ =>
      cases List.mem_singleton.mp member
      exact List.Subset.refl _
  | conditional condition whenTrue whenFalse =>
      rcases List.mem_cons.mp member with rfl | member
      · exact List.Subset.refl _
      rcases List.mem_append.mp member with inside | inside
      · exact List.Subset.trans (Stmt.subterms_of_nestedInAll inside)
          (List.Subset.trans (List.subset_append_right _ _) (List.subset_append_left _ _))
      · exact List.Subset.trans (Stmt.subterms_of_nestedInAll inside)
          (List.subset_append_right _ _)
  | switch condition cases =>
      rcases List.mem_cons.mp member with rfl | inside
      · exact List.Subset.refl _
      · exact List.Subset.trans (Case.subterms_of_nestedInAll inside)
          (List.subset_append_right _ _)
  | loop condition body =>
      rcases List.mem_cons.mp member with rfl | inside
      · exact List.Subset.refl _
      · exact List.Subset.trans (Stmt.subterms_of_nestedInAll inside)
          (List.subset_append_right _ _)

theorem Stmt.subterms_of_nestedInAll {inner : Stmt} {statements : List Stmt}
    (member : inner ∈ Stmt.nestedInAll statements) :
    inner.subterms ⊆ Stmt.subtermsOfAll statements := by
  cases statements with
  | nil => cases member
  | cons head tail =>
      rcases List.mem_append.mp member with inside | inside
      · exact List.Subset.trans (Stmt.subterms_of_nested inside) (List.subset_append_left _ _)
      · exact List.Subset.trans (Stmt.subterms_of_nestedInAll inside)
          (List.subset_append_right _ _)

theorem Case.subterms_of_nestedInAll {inner : Stmt} {cases : List Case}
    (member : inner ∈ Case.nestedInAll cases) :
    inner.subterms ⊆ Case.subtermsOfAll cases := by
  cases cases with
  | nil => cases member
  | cons head tail =>
      rcases head with ⟨tested, body⟩
      rcases List.mem_append.mp member with inside | inside
      · exact List.Subset.trans (Stmt.subterms_of_nestedInAll inside)
          (List.Subset.trans (List.subset_append_right _ _) (List.subset_append_left _ _))
      · exact List.Subset.trans (Case.subterms_of_nestedInAll inside)
          (List.subset_append_right _ _)

end

mutual

/-- Whether a statement never lets the one after it be executed. A switch without
cases does nothing. -/
def Stmt.returnsAlways : Stmt → Bool
  | .returns _ => true
  | .conditional _ whenTrue whenFalse =>
      Stmt.blockReturns whenTrue && Stmt.blockReturns whenFalse
  | .switch _ cases => !cases.isEmpty && Case.allReturn cases
  | _ => false

/-- Whether a block has a statement at its top level that always returns. -/
def Stmt.blockReturns : List Stmt → Bool
  | [] => false
  | head :: tail => head.returnsAlways || Stmt.blockReturns tail

def Case.allReturn : List Case → Bool
  | [] => true
  | .mk _ body :: tail => Stmt.blockReturns body && Case.allReturn tail

end

/-! ## The types of declarations -/

/-- The type a declaration gives its variable: the stated one, or else that of the
first value. A parameter without a type takes any value. -/
def Program.declaredType (program : Program) (annotations : Annotations) :
    Declaration → Option Ty
  | .plain (some typeName) _ => Ty.ofName? typeName
  | .plain none (some value) => annotations.typeTable[value.node.id]?
  | .plain none none => none
  | .parameter function arity index => do
      let procedure ← program.procedures.find? fun procedure =>
        procedure.name == function && procedure.parameters.length == arity
      let parameter ← procedure.parameters[index]?
      match parameter.typeName with
      | some typeName => Ty.ofName? typeName
      | none => some .any

def Global.elementType? (annotations : Annotations) (declaration : Global) : Option Ty :=
  match declaration.value with
  | some (.list node _) => annotations.typeTable[node.id]?
  | _ => none

/-- The types of the elements of all lists. A list has the number of its declaration
among those of lists. -/
def Program.listTypes (program : Program) (annotations : Annotations) : List Ty :=
  program.globals.filterMap (Global.elementType? annotations)

theorem Program.declaredType_of_initializes {program : Program} {annotations : Annotations}
    {context : Context} {typeName : Option String} {stated : Option Ty} {value : Option Expr}
    {type : Ty} (named : Ty.ofOptionalName typeName = .ok stated)
    (initializes : Initializes annotations.Notes context stated value type) :
    program.declaredType annotations (.plain typeName value) = some type := by
  cases typeName with
  | none =>
      cases named
      cases initializes with
      | infers typed => exact typed.note
  | some name =>
      have looked : Ty.ofName? name = stated := by
        rw [Ty.ofOptionalName] at named
        split at named
        · cases named
          assumption
        · cases named
      rw [Program.declaredType, looked]
      cases initializes with
      | fits _ _ => rfl
      | unset => rfl
      | infers _ =>
          rw [Ty.ofOptionalName, looked] at named
          cases named

theorem Program.declaredType_of_elements {program : Program} {annotations : Annotations}
    {context : Context} {typeName : Option String} {stated : Option Ty} {node : Node}
    {elements : List Expr} {type : Ty} (named : Ty.ofOptionalName typeName = .ok stated)
    (typed : Elements annotations.Notes context stated elements type)
    (note : annotations.Notes node.id type) :
    program.declaredType annotations (.plain typeName (some (.list node elements))) =
      some type := by
  cases typeName with
  | none => exact note
  | some name =>
      rw [Ty.ofOptionalName] at named
      split at named
      · rename_i looked
        cases named
        rw [Program.declaredType, looked, typed.eq_stated]
      · cases named

theorem Global.elementType?_eq_none {annotations : Annotations} {context : Context}
    {declaration : Global} {stated : Option Ty} {type : Ty}
    (initializes : Initializes annotations.Notes context stated declaration.value type) :
    declaration.elementType? annotations = none := by
  rcases declaration with ⟨id, name, typeName, isMutable, value⟩
  cases initializes with
  | fits typed _ | infers typed => cases typed <;> rfl
  | unset => rfl

/-! ## The fragment -/

/-- There is no list and no access to an element of one, nothing is called `RETURN`,
only numbers are put in order, and there are no powers of decimals. -/
def Expr.InFragment (annotations : Annotations) : Expr → Prop
  | .list _ _ | .element _ _ _ => False
  | .access _ name => name ≠ "RETURN"
  | .binary _ operator left right =>
      (operator = .less ∨ operator = .greater → ∀ operand ∈ [left, right],
        annotations.typeTable[operand.node.id]? = some .integer ∨
          annotations.typeTable[operand.node.id]? = some .decimal) ∧
      (operator = .power → annotations.typeTable[left.node.id]? ≠ some .decimal)
  | .literal _ _ | .group _ _ | .call _ _ _ => True

/-- A variable has a first value, unless its type is one that admits a missing one; and
it is not called `RETURN`. -/
def Declaration.Begins (name : String) (typeName : Option String) (value : Option Expr) : Prop :=
  name ≠ "RETURN" ∧
    (value.isSome ∨ typeName = some Ty.any.name ∨ typeName = some Ty.nil.name)

def Stmt.InFragment : Stmt → Prop
  | .declaration _ name typeName value => Declaration.Begins name typeName value
  | _ => True

/-- A function whose result is of some other type than these two always returns. -/
def Procedure.Promises (procedure : Procedure) : Prop :=
  procedure.resultTypeName ∉ [none, some Ty.nil.name, some Ty.any.name] →
    Stmt.blockReturns procedure.body = true

structure Program.InSafeFragment (program : Program) (annotations : Annotations) : Prop where
  terms : ∀ term ∈ program.subterms, term.InFragment annotations
  globals : ∀ declaration ∈ program.globals,
    Declaration.Begins declaration.name declaration.typeName declaration.value
  statements : ∀ procedure ∈ program.procedures,
    ∀ statement ∈ Stmt.nestedInAll procedure.body, statement.InFragment
  parameters : ∀ procedure ∈ program.procedures, ∀ parameter ∈ procedure.parameters,
    parameter.name ≠ "RETURN"
  returns : ∀ procedure ∈ program.procedures, procedure.Promises

/-! Whether a program is in the fragment can be computed. -/

instance (annotations : Annotations) : DecidablePred (Expr.InFragment annotations)
  | .list _ _ | .element _ _ _ => inferInstanceAs (Decidable False)
  | .access _ name => inferInstanceAs (Decidable (name ≠ "RETURN"))
  | .binary _ _ _ _ => inferInstanceAs (Decidable (_ ∧ _))
  | .literal _ _ | .group _ _ | .call _ _ _ => inferInstanceAs (Decidable True)

instance (name : String) (typeName : Option String) (value : Option Expr) :
    Decidable (Declaration.Begins name typeName value) :=
  inferInstanceAs (Decidable (_ ∧ _))

instance : DecidablePred Stmt.InFragment
  | .declaration _ name typeName value =>
      inferInstanceAs (Decidable (Declaration.Begins name typeName value))
  | .expression _ | .assignment _ _ | .conditional _ _ _ | .switch _ _ | .loop _ _
  | .returns _ => inferInstanceAs (Decidable True)

instance : DecidablePred Procedure.Promises :=
  fun _ => inferInstanceAs (Decidable (_ → _))

instance (program : Program) (annotations : Annotations) :
    Decidable (program.InSafeFragment annotations) :=
  decidable_of_iff
    ((∀ term ∈ program.subterms, term.InFragment annotations) ∧
      (∀ declaration ∈ program.globals,
        Declaration.Begins declaration.name declaration.typeName declaration.value) ∧
      (∀ procedure ∈ program.procedures,
        ∀ statement ∈ Stmt.nestedInAll procedure.body, statement.InFragment) ∧
      (∀ procedure ∈ program.procedures, ∀ parameter ∈ procedure.parameters,
        parameter.name ≠ "RETURN") ∧
      ∀ procedure ∈ program.procedures, procedure.Promises)
    ⟨fun ⟨terms, globals, statements, parameters, returns⟩ =>
      ⟨terms, globals, statements, parameters, returns⟩,
      fun fragment => ⟨fragment.terms, fragment.globals, fragment.statements,
        fragment.parameters, fragment.returns⟩⟩

end Plc
