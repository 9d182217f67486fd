import Plc.Proofs.Machine.Change

/-! What the changes of a run do to scopes and cells. Only a definition adds a variable, only
a declaration adds a function, only an assignment changes a cell, and what a scope is inside
of is settled when it is made. -/

namespace Plc

abbrev Machine.globalScope (machine : Machine) : Scope Machine.Variable Machine.Function :=
  machine.scopes.scope Machine.global

/-! ## Cells -/

namespace Machine

theorem cell_setCell_of_ne (machine : Machine) {number other : Nat} (value : Value)
    (different : other ≠ number) : (machine.setCell number value).cell other =
      machine.cell other := by
  simp [cell, setCell, Ne.symm different]

theorem cell_defineVariable_of_lt (machine : Machine) (position : Nat) (name : String)
    (type : Ty) (isMutable : Bool) (value : Value) {number : Nat}
    (present : number < machine.cells.size) :
    (machine.defineVariable position name type isMutable value).2.cell number =
      machine.cell number := by
  rcases machine.defineVariable_cases position name type isMutable value with
    ⟨_, same⟩ | ⟨_, _, _, same⟩
  · rw [same]
  · rw [same]
    simp [cell, Array.getElem?_push, Nat.ne_of_lt present]

/-! ## Definitions -/

theorem lookup_defineVariable {machine : Machine} {position place : Nat} {name other : String}
    {type : Ty} {isMutable : Bool} {value : Value} {found : Variable}
    (known : ((machine.defineVariable position name type isMutable value).2.scopes.scope
      place).lookup other = some found) :
    (machine.scopes.scope place).lookup other = some found ∨
      place = position ∧ other = name ∧
        found = ⟨name, type, isMutable, machine.cells.size⟩ ∧
        (machine.defineVariable position name type isMutable value).2.cells.size =
          machine.cells.size + 1 := by
  rcases machine.defineVariable_cases position name type isMutable value with
    ⟨_, same⟩ | ⟨_, extended, grown, same⟩
  · rw [same] at known
    exact .inl known
  · have present := Scope.Tree.lt_size_of_lookup known
    rw [same] at known present ⊢
    dsimp only at known present
    rw [Scope.Tree.size_setScope] at present
    rw [Scope.Tree.lookup_setScope_defined grown present] at known
    split at known
    · rename_i both
      cases known
      exact .inr ⟨both.1, both.2, rfl, by simp⟩
    · exact .inl known

theorem lookupFunction_defineFunction {machine : Machine} {position place arity : Nat}
    {name : String} {function found : Function}
    (known : ((machine.defineFunction position function).2.scopes.scope place).lookupFunction
      name arity = some found) :
    (machine.scopes.scope place).lookupFunction name arity = some found ∨
      place = position ∧ found = function := by
  cases taken : (machine.scopes.scope position).lookupFunction function.signature.name
      function.signature.arity with
  | some earlier =>
      rw [defineFunction_of_taken (Option.isSome_of_eq_some taken)] at known
      exact .inl known
  | none =>
      rcases defineFunction_of_free taken with ⟨extended, grown, same⟩
      have present := Scope.Tree.lt_size_of_lookupFunction known
      rw [same] at known present
      dsimp only at known present
      rw [Scope.Tree.size_setScope] at present
      rw [Scope.Tree.lookupFunction_setScope_definedFunction grown present] at known
      split at known
      · rename_i both
        cases known
        exact .inr ⟨both.1, rfl⟩
      · exact .inl known

theorem lookup_defineFunction (machine : Machine) (position place : Nat) (function : Function)
    (name : String) :
    ((machine.defineFunction position function).2.scopes.scope place).lookup name =
      (machine.scopes.scope place).lookup name := by
  cases taken : (machine.scopes.scope position).lookupFunction function.signature.name
      function.signature.arity with
  | some earlier => rw [defineFunction_of_taken (Option.isSome_of_eq_some taken)]
  | none =>
      rcases defineFunction_of_free taken with ⟨extended, grown, same⟩
      rw [same]
      by_cases present : place < machine.scopes.places.size
      · exact Scope.Tree.lookup_setScope_definedFunction grown present name
      · have absent := Nat.le_of_not_lt present
        dsimp only
        rw [Scope.Tree.scope_of_le absent, Scope.Tree.scope_of_le]
        simpa using absent

theorem lookupFunction_defineVariable (machine : Machine) (position place arity : Nat)
    (name other : String) (type : Ty) (isMutable : Bool) (value : Value) :
    ((machine.defineVariable position name type isMutable value).2.scopes.scope
      place).lookupFunction other arity =
      (machine.scopes.scope place).lookupFunction other arity := by
  rcases machine.defineVariable_cases position name type isMutable value with
    ⟨_, same⟩ | ⟨_, extended, grown, same⟩
  · rw [same]
  · rw [same]
    by_cases present : place < machine.scopes.places.size
    · exact Scope.Tree.lookupFunction_setScope_defined grown present other arity
    · have absent := Nat.le_of_not_lt present
      dsimp only
      rw [Scope.Tree.scope_of_le absent, Scope.Tree.scope_of_le]
      simpa using absent

theorem outer_defineVariable (machine : Machine) (position : Nat) (name : String) (type : Ty)
    (isMutable : Bool) (value : Value) :
    (machine.defineVariable position name type isMutable value).2.scopes.places.size =
      machine.scopes.places.size ∧
    ∀ place, (machine.defineVariable position name type isMutable value).2.scopes.outer place =
      machine.scopes.outer place := by
  rcases machine.defineVariable_cases position name type isMutable value with
    ⟨_, same⟩ | ⟨_, extended, _, same⟩
  · rw [same]
    exact ⟨rfl, fun _ => rfl⟩
  · rw [same]
    exact ⟨by simp, by simp⟩

theorem outer_defineFunction (machine : Machine) (position : Nat) (function : Function) :
    (machine.defineFunction position function).2.scopes.places.size =
      machine.scopes.places.size ∧
    ∀ place, (machine.defineFunction position function).2.scopes.outer place =
      machine.scopes.outer place := by
  cases taken : (machine.scopes.scope position).lookupFunction function.signature.name
      function.signature.arity with
  | some earlier =>
      rw [defineFunction_of_taken (Option.isSome_of_eq_some taken)]
      exact ⟨rfl, fun _ => rfl⟩
  | none =>
      rcases defineFunction_of_free taken with ⟨extended, grown, same⟩
      rw [same]
      exact ⟨by simp, by simp⟩

end Machine

/-! ## Changes -/

namespace Moment.Change

variable {moment : Moment} {before after : Machine}

theorem bindings (change : moment.Change before after) :
    (∃ position name isMutable value,
      after = (before.defineVariable position name .any isMutable value).2) ∨
    after.cells.size = before.cells.size ∧
      ∀ place name, (after.scopes.scope place).lookup name =
        (before.scopes.scope place).lookup name := by
  cases change with
  | memory touches => exact .inr ⟨rfl, fun _ _ => rfl⟩
  | assign value uses found isMutable => exact .inr ⟨by simp [Machine.setCell], fun _ _ => rfl⟩
  | enter uses => exact .inr ⟨rfl, by simp [Machine.child]⟩
  | call invokes callable present => exact .inr ⟨rfl, by simp [Machine.child]⟩
  | body present new => exact .inr ⟨rfl, fun _ _ => rfl⟩
  | leave => exact .inr ⟨rfl, fun _ _ => rfl⟩
  | define defines => exact .inl ⟨_, _, _, _, rfl⟩
  | declare runs member =>
      exact .inr ⟨rfl, fun place name => before.lookup_defineFunction _ place _ name⟩

theorem cells_le (change : moment.Change before after) :
    before.cells.size ≤ after.cells.size := by
  rcases change.bindings with ⟨position, name, isMutable, value, rfl⟩ | ⟨same, _⟩
  · exact (Machine.Framed.defineVariable before position name .any isMutable value).cells
  · exact Nat.le_of_eq same.symm

theorem cells_eq (change : moment.Change before after)
    (notDefine : ∀ declaration position name isMutable value,
      moment.activity ≠ .define declaration position name isMutable value) :
    after.cells.size = before.cells.size := by
  cases change with
  | assign => simp [Machine.setCell]
  | define defines => exact absurd defines (notDefine _ _ _ _ _)
  | _ => rfl

theorem functions (change : moment.Change before after) :
    (∃ (program : Program) (procedure : Procedure), moment.activity = .run program ∧
      procedure ∈ program.procedures ∧
      after = (before.defineFunction Machine.global procedure.function).2) ∨
    ∀ place name arity, (after.scopes.scope place).lookupFunction name arity =
      (before.scopes.scope place).lookupFunction name arity := by
  cases change with
  | memory touches => exact .inr fun _ _ _ => rfl
  | assign value uses found isMutable => exact .inr fun _ _ _ => rfl
  | enter uses => exact .inr (by simp [Machine.child])
  | call invokes callable present => exact .inr (by simp [Machine.child])
  | body present new => exact .inr fun _ _ _ => rfl
  | leave => exact .inr fun _ _ _ => rfl
  | define defines =>
      exact .inr fun place name arity =>
        before.lookupFunction_defineVariable _ place arity _ name _ _ _
  | declare runs member => exact .inl ⟨_, _, runs, member, rfl⟩

theorem contents (change : moment.Change before after) :
    (∃ name target value, moment.activity.usesScope = true ∧
      moment.machine.scopes.lookup moment.machine.current name = some target ∧
      target.isMutable = true ∧ after = before.setCell target.cell value) ∨
    ∀ number < before.cells.size, after.cell number = before.cell number := by
  cases change with
  | memory touches => exact .inr fun _ _ => rfl
  | assign value uses found isMutable =>
      exact .inl ⟨_, _, value, uses, found, isMutable, rfl⟩
  | enter uses => exact .inr fun _ _ => rfl
  | call invokes callable present => exact .inr fun _ _ => rfl
  | body present new => exact .inr fun _ _ => rfl
  | leave => exact .inr fun _ _ => rfl
  | define defines =>
      exact .inr fun _ present => before.cell_defineVariable_of_lt _ _ _ _ _ present
  | declare runs member => exact .inr fun _ _ => rfl

/-- A new scope is inside that of the moment, or inside the one where the function that the
moment calls was declared. -/
theorem scopes (change : moment.Change before after) :
    (after.scopes.places.size = before.scopes.places.size ∧
      ∀ place, after.scopes.outer place = before.scopes.outer place) ∨
    ∃ parent, after.scopes = (before.scopes.child parent).2 ∧
      (moment.activity.usesScope = true ∧ parent = moment.machine.current ∨
        ∃ function arguments parameters body,
          moment.activity = .invoke function arguments ∧
          function.callable = .declared parameters body parent) := by
  cases change with
  | memory touches => exact .inl ⟨rfl, fun _ => rfl⟩
  | assign value uses found isMutable => exact .inl ⟨rfl, fun _ => rfl⟩
  | enter uses => exact .inr ⟨_, rfl, .inl ⟨uses, rfl⟩⟩
  | call invokes callable present => exact .inr ⟨_, rfl, .inr ⟨_, _, _, _, invokes, callable⟩⟩
  | body present new => exact .inl ⟨rfl, fun _ => rfl⟩
  | leave => exact .inl ⟨rfl, fun _ => rfl⟩
  | define defines => exact .inl (before.outer_defineVariable _ _ _ _ _)
  | declare runs member => exact .inl (before.outer_defineFunction _ _)

theorem places_le (change : moment.Change before after) :
    before.scopes.places.size ≤ after.scopes.places.size := by
  rcases change.scopes with ⟨same, _⟩ | ⟨parent, made, _⟩
  · exact Nat.le_of_eq same.symm
  · simp [made]

theorem outer_eq (change : moment.Change before after) {place : Nat}
    (present : place < before.scopes.places.size) :
    after.scopes.outer place = before.scopes.outer place := by
  rcases change.scopes with ⟨_, same⟩ | ⟨parent, made, _⟩
  · exact same place
  · rw [made, Scope.Tree.outer_child_of_lt _ _ present]

/-- A moment goes on in the scope where it is, goes back to the one where it started, or goes
to one that exists. -/
theorem current_cases (change : moment.Change before after) :
    after.current = before.current ∨ after.current = moment.machine.current ∨
      after.current < after.scopes.places.size := by
  cases change with
  | enter uses => exact .inr (.inr (by simp [Machine.child, Scope.Tree.child]))
  | body present new => exact .inr (.inr present)
  | leave => exact .inr (.inl rfl)
  | define defines =>
      exact .inl (Machine.Framed.defineVariable before _ _ _ _ _).current
  | _ => exact .inl rfl

theorem variable_persists (change : moment.Change before after) {place : Nat} {name : String}
    {found : Machine.Variable} (known : (before.scopes.scope place).lookup name = some found) :
    (after.scopes.scope place).lookup name = some found := by
  rcases change.bindings with ⟨position, defined, isMutable, value, rfl⟩ | ⟨_, same⟩
  · exact (Machine.Framed.defineVariable before position defined .any isMutable value).persists
      place (Scope.Tree.lt_size_of_lookup known) name found known
  · rw [same]
    exact known

end Moment.Change

end Plc
