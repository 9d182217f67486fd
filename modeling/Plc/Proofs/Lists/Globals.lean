import Plc.Proofs.Lists.Lengths
import Plc.Proofs.Typing.Calls

/-! The lists of a program. In a checked program a list stands only as the value of a global,
so a run makes its lists while it defines the globals, one after the other, and the lengths of
the lists are those of the first literals of the program. -/

namespace Plc

open Typing

def Global.list? (declaration : Global) : Option (Node × List Expr) :=
  match declaration.value with
  | some (.list node elements) => some (node, elements)
  | _ => none

def Global.lists (declarations : List Global) : List (Node × List Expr) :=
  declarations.filterMap Global.list?

def Global.lengths (declarations : List Global) : List Nat :=
  (Global.lists declarations).map (·.2.length)

abbrev Program.lists (program : Program) : List (Node × List Expr) :=
  Global.lists program.globals

abbrev Program.lengths (program : Program) : List Nat :=
  Global.lengths program.globals

namespace Global

theorem value_of_list? {declaration : Global} {node : Node} {elements : List Expr}
    (isList : declaration.list? = some (node, elements)) :
    declaration.value = some (.list node elements) := by
  unfold list? at isList
  split at isList
  · cases isList
    assumption
  · cases isList

@[simp] theorem lists_append (first second : List Global) :
    lists (first ++ second) = lists first ++ lists second := by
  simp [lists]

@[simp] theorem lengths_append (first second : List Global) :
    lengths (first ++ second) = lengths first ++ lengths second := by
  simp [lengths]

theorem lengths_cons_of_list {declaration : Global} {node : Node} {elements : List Expr}
    (isList : declaration.list? = some (node, elements)) (rest : List Global) :
    lengths (declaration :: rest) = elements.length :: lengths rest := by
  simp [lengths, lists, isList]

theorem lengths_cons_of_other {declaration : Global} (other : declaration.list? = none)
    (rest : List Global) : lengths (declaration :: rest) = lengths rest := by
  simp [lengths, lists, other]

end Global

/-! ## Checked programs -/

/-- Lists stand nowhere but as the values of globals. -/
structure Program.ListsAreGlobal (program : Program) : Prop where
  elements : ∀ declaration ∈ program.globals, ∀ node elements,
    declaration.list? = some (node, elements) →
      ∀ term ∈ Expr.subtermsOfAll elements, term.isList = false
  others : ∀ declaration ∈ program.globals, declaration.list? = none →
    ∀ term ∈ declaration.subterms, term.isList = false
  bodies : ∀ procedure ∈ program.procedures, ∀ term ∈ procedure.subterms, term.isList = false

theorem Expr.Permitted.not_isList {allowed : String → Nat → Prop} {term : Expr}
    (permitted : term.Permitted allowed) : term.isList = false := by
  cases term with
  | list node elements => cases permitted
  | _ => rfl

theorem Typing.Sequence.lists_of_globals {noted : Nat → Ty → Prop} {context last : Context}
    {declarations : List Global}
    (sequence : Sequence (Global.Typed noted) context declarations last) :
    ∀ declaration ∈ declarations,
      (∀ node elements, declaration.list? = some (node, elements) →
        ∀ term ∈ Expr.subtermsOfAll elements, term.isList = false) ∧
      (declaration.list? = none → ∀ term ∈ declaration.subterms, term.isList = false) := by
  induction sequence with
  | nil => exact fun _ member => absurd member List.not_mem_nil
  | @cons context middle last declaration declarations head tail induction =>
      refine List.forall_mem_cons.mpr ⟨?_, induction⟩
      cases head with
      | @list node elements stated type isList named elementsTyped note declares =>
          have listed : declaration.list? = some (node, elements) := by
            rw [Global.list?, isList]
          rw [listed]
          refine ⟨?_, nofun⟩
          intro _ _ same term member
          cases same
          rcases elementsTyped.haveTypes with ⟨types, typed, _⟩
          exact (typed.permitted term member).not_isList
      | plain named initializes declares =>
          have permitted := initializes.permitted
          refine ⟨?_, fun _ term member => (permitted term member).not_isList⟩
          intro node elements isList
          rw [Global.value_of_list? isList] at permitted
          cases permitted _ List.mem_cons_self

theorem Program.listsAreGlobal_of_typed {program : Program} {noted : Nat → Ty → Prop}
    (typed : program.Typed noted Context.standard) : program.ListsAreGlobal := by
  rcases typed with ⟨middle, last, globals, procedures, _⟩
  refine ⟨fun declaration member => (globals.lists_of_globals declaration member).1,
    fun declaration member => (globals.lists_of_globals declaration member).2, ?_⟩
  intro procedure member term part
  rcases List.getElem?_of_mem member with ⟨index, found⟩
  exact (procedures.permitted_procedures index procedure found term part).not_isList

end Plc
