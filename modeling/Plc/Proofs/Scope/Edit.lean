import Plc.Proofs.Machine.Scopes

/-! Single edits of a tree of scopes. A scope keeps what it has: a definition adds a name that
the scope did not have, and no other edit changes what a scope has. -/

namespace Plc

/-- Something that is done to a tree of scopes. -/
inductive Scope.Edit where
  /-- A scope is made inside the one at `position`. -/
  | child (position : Nat)
  | define (position : Nat) (name : String) (type : Ty) (isMutable : Bool) (value : Value)
  /-- A variable is defined that has its value in a cell that exists. -/
  | share (position : Nat) (binding : Machine.Variable)
  | defineFunction (position : Nat) (function : Machine.Function)
  | assign (target : Machine.Variable) (value : Value)

def Machine.perform (machine : Machine) : Scope.Edit → Bool × Machine
  | .child position => (true, (machine.child position).2)
  | .define position name type isMutable value =>
      machine.defineVariable position name type isMutable value
  | .share position binding =>
      let (defined, scopes) := machine.scopes.defineVariable position binding.name binding
      (defined, { machine with scopes })
  | .defineFunction position function => machine.defineFunction position function
  | .assign target value => (true, machine.setCell target.cell value)

/-- The value that a name has in the scope at `position`. -/
def Machine.seen (machine : Machine) (position : Nat) (name : String) : Option Value :=
  (machine.scopes.lookup position name).map fun found => machine.cell found.cell

namespace Scope.Edit

def Present (count : Nat) : Edit → Prop
  | .child position | .define position _ _ _ _ | .share position _ | .defineFunction position _ =>
      position < count
  | .assign _ _ => True

/-- The variable that the edit defines in a scope under a name, if the next new cell is
`cell`. -/
def variableFor? (cell place : Nat) (name : String) : Edit → Option Machine.Variable
  | .define position other type isMutable _ =>
      if place = position ∧ name = other then some ⟨other, type, isMutable, cell⟩ else none
  | .share position binding =>
      if place = position ∧ name = binding.name then some binding else none
  | .child _ | .defineFunction _ _ | .assign _ _ => none

def functionFor? (place : Nat) (name : String) (arity : Nat) : Edit → Option Machine.Function
  | .defineFunction position function =>
      if place = position ∧
          (name, arity) = (function.signature.name, function.signature.arity) then
        some function
      else none
  | .child _ | .define _ _ _ _ _ | .share _ _ | .assign _ _ => none

end Scope.Edit

/-! ## Single edits -/

namespace Scope.Tree

variable {Variable Function : Type}

theorem defineVariable_cases (tree : Tree Variable Function) (position : Nat) (name : String)
    (binding : Variable) :
    ((tree.scope position).lookup name).isSome ∧
        tree.defineVariable position name binding = (false, tree) ∨
      (tree.scope position).lookup name = none ∧
        ∃ extended, (tree.scope position).defineVariable? name binding = some extended ∧
          tree.defineVariable position name binding = (true, tree.setScope position extended) := by
  cases known : (tree.scope position).lookup name with
  | some found =>
      have taken := ((tree.scope position).defineVariable?_eq_none_iff name binding).mpr
        (Option.isSome_of_eq_some known)
      exact .inl ⟨rfl, by simp only [defineVariable, taken]⟩
  | none =>
      have free : (tree.scope position).defineVariable? name binding ≠ none := by
        rw [ne_eq, defineVariable?_eq_none_iff, known]
        exact Bool.false_ne_true
      rcases Option.ne_none_iff_exists'.mp free with ⟨extended, defined⟩
      exact .inr ⟨rfl, extended, defined, by simp only [defineVariable, defined]⟩

theorem lookup_defineVariable (tree : Tree Variable Function) {position : Nat}
    (present : position < tree.places.size) (name : String) (binding : Variable) (place : Nat)
    (other : String) :
    ((tree.defineVariable position name binding).2.scope place).lookup other =
      ((tree.scope place).lookup other).or
        (if place = position ∧ other = name then some binding else none) := by
  rcases tree.defineVariable_cases position name binding with
    ⟨taken, same⟩ | ⟨free, extended, defined, same⟩
  · rw [same]
    split
    · rename_i both
      rw [both.1, both.2, Option.or_of_isSome taken]
    · rw [Option.or_none]
  · rw [same]
    dsimp only
    by_cases here : place = position
    · subst here
      rw [lookup_setScope_defined defined present]
      by_cases named : other = name
      · simp [named, free]
      · simp [named]
    · rw [scope_setScope_of_ne _ _ here, if_neg fun both => here both.1, Option.or_none]

theorem lookupFunction_defineVariable (tree : Tree Variable Function) {position : Nat}
    (present : position < tree.places.size) (name : String) (binding : Variable) (place : Nat)
    (other : String) (arity : Nat) :
    ((tree.defineVariable position name binding).2.scope place).lookupFunction other arity =
      (tree.scope place).lookupFunction other arity := by
  rcases tree.defineVariable_cases position name binding with
    ⟨_, same⟩ | ⟨_, extended, defined, same⟩
  · rw [same]
  · rw [same]
    dsimp only
    by_cases here : place = position
    · subst here
      rw [lookupFunction_setScope_defined defined present]
    · rw [scope_setScope_of_ne _ _ here]

theorem outer_defineVariable (tree : Tree Variable Function) (position : Nat) (name : String)
    (binding : Variable) :
    (tree.defineVariable position name binding).2.places.size = tree.places.size ∧
      ∀ place, (tree.defineVariable position name binding).2.outer place = tree.outer place := by
  rcases tree.defineVariable_cases position name binding with ⟨_, same⟩ | ⟨_, _, _, same⟩
  · simp [same]
  · simp [same]

end Scope.Tree

namespace Machine

variable (machine : Machine)

theorem lookupFunction_defineFunction_eq {position : Nat}
    (present : position < machine.scopes.places.size) (function : Function) (place : Nat)
    (name : String) (arity : Nat) :
    ((machine.defineFunction position function).2.scopes.scope place).lookupFunction name
        arity =
      ((machine.scopes.scope place).lookupFunction name arity).or
        (if place = position ∧
            (name, arity) = (function.signature.name, function.signature.arity) then
          some function
        else none) := by
  cases taken : (machine.scopes.scope position).lookupFunction function.signature.name
      function.signature.arity with
  | some earlier =>
      rw [defineFunction_of_taken (Option.isSome_of_eq_some taken)]
      split
      · rename_i both
        rcases both with ⟨rfl, same⟩
        cases same
        rw [taken, Option.some_or]
      · rw [Option.or_none]
  | none =>
      rcases defineFunction_of_free taken with ⟨extended, defined, same⟩
      rw [same]
      dsimp only
      by_cases here : place = position
      · subst here
        rw [Scope.Tree.lookupFunction_setScope_definedFunction defined present]
        by_cases named : (name, arity) = (function.signature.name, function.signature.arity)
        · rw [if_pos ⟨rfl, named⟩, if_pos ⟨rfl, named⟩]
          cases named
          rw [taken, Option.none_or]
        · rw [if_neg fun both => named both.2, if_neg fun both => named both.2, Option.or_none]
      · rw [Scope.Tree.scope_setScope_of_ne _ _ here, if_neg fun both => here both.1,
          Option.or_none]

variable {edit : Scope.Edit}

theorem lookup_perform (present : edit.Present machine.scopes.places.size) (place : Nat)
    (name : String) :
    ((machine.perform edit).2.scopes.scope place).lookup name =
      ((machine.scopes.scope place).lookup name).or
        (edit.variableFor? machine.cells.size place name) := by
  cases edit with
  | child position =>
      rw [Scope.Edit.variableFor?, Option.or_none]
      exact congrArg (·.lookup name) (machine.scopes.scope_child position place)
  | define position other type isMutable value =>
      exact machine.scopes.lookup_defineVariable present other _ place name
  | share position binding =>
      exact machine.scopes.lookup_defineVariable present binding.name binding place name
  | defineFunction position function =>
      rw [Scope.Edit.variableFor?, Option.or_none]
      exact machine.lookup_defineFunction position place function name
  | assign target value => exact (Option.or_none).symm

theorem lookupFunction_perform (present : edit.Present machine.scopes.places.size) (place : Nat)
    (name : String) (arity : Nat) :
    ((machine.perform edit).2.scopes.scope place).lookupFunction name arity =
      ((machine.scopes.scope place).lookupFunction name arity).or
        (edit.functionFor? place name arity) := by
  cases edit with
  | child position =>
      rw [Scope.Edit.functionFor?, Option.or_none]
      exact congrArg (·.lookupFunction name arity) (machine.scopes.scope_child position place)
  | define position other type isMutable value =>
      rw [Scope.Edit.functionFor?, Option.or_none]
      exact machine.scopes.lookupFunction_defineVariable present other _ place name arity
  | share position binding =>
      rw [Scope.Edit.functionFor?, Option.or_none]
      exact machine.scopes.lookupFunction_defineVariable present binding.name _ place name arity
  | defineFunction position function =>
      exact machine.lookupFunction_defineFunction_eq present function place name arity
  | assign target value => exact (Option.or_none).symm

end Machine

end Plc
