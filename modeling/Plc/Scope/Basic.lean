/-! Scopes: what names mean in one block. Variables are known by name,
functions by name and number of parameters, and the two do not meet. -/

namespace Plc

structure Scope (Variable Function : Type) where
  variableTable : List (String × Variable)
  functionTable : List ((String × Nat) × Function)
  deriving Repr

namespace Scope

def empty : Scope Variable Function := ⟨[], []⟩

instance : Inhabited (Scope Variable Function) := ⟨empty⟩

def lookup (scope : Scope Variable Function) (name : String) : Option Variable :=
  scope.variableTable.lookup name

def lookupFunction (scope : Scope Variable Function) (name : String) (arity : Nat) :
    Option Function :=
  scope.functionTable.lookup (name, arity)

/-- Defines a variable, unless the scope has one of that name. -/
def defineVariable? (scope : Scope Variable Function) (name : String)
    (binding : Variable) : Option (Scope Variable Function) :=
  match scope.lookup name with
  | some _ => none
  | none => some { scope with variableTable := (name, binding) :: scope.variableTable }

/-- Defines a function, unless the scope has one of that name and arity. -/
def defineFunction? (scope : Scope Variable Function) (name : String) (arity : Nat)
    (binding : Function) : Option (Scope Variable Function) :=
  match scope.lookupFunction name arity with
  | some _ => none
  | none => some { scope with functionTable := ((name, arity), binding) :: scope.functionTable }

@[simp] theorem lookup_empty (name : String) :
    (empty : Scope Variable Function).lookup name = none := rfl

@[simp] theorem lookupFunction_empty (name : String) (arity : Nat) :
    (empty : Scope Variable Function).lookupFunction name arity = none := rfl

theorem defineVariable?_eq_none_iff (scope : Scope Variable Function)
    (name : String) (binding : Variable) :
    scope.defineVariable? name binding = none ↔ (scope.lookup name).isSome := by
  unfold defineVariable?
  split <;> simp_all

theorem defineFunction?_eq_none_iff (scope : Scope Variable Function)
    (name : String) (arity : Nat) (binding : Function) :
    scope.defineFunction? name arity binding = none ↔
      (scope.lookupFunction name arity).isSome := by
  unfold defineFunction?
  split <;> simp_all

theorem lookup_of_defineVariable? {scope extended : Scope Variable Function}
    {name : String} {binding : Variable}
    (defined : scope.defineVariable? name binding = some extended) (other : String) :
    extended.lookup other =
      if other = name then some binding else scope.lookup other := by
  unfold defineVariable? at defined
  split at defined
  · cases defined
  · cases defined
    by_cases equal : other = name
    · simp [lookup, equal]
    · have different : (other == name) = false := beq_false_of_ne equal
      simp only [lookup, List.lookup_cons, different, if_neg equal]

theorem lookupFunction_of_defineVariable? {scope extended : Scope Variable Function}
    {name : String} {binding : Variable}
    (defined : scope.defineVariable? name binding = some extended)
    (other : String) (arity : Nat) :
    extended.lookupFunction other arity = scope.lookupFunction other arity := by
  unfold defineVariable? at defined
  split at defined
  · cases defined
  · cases defined
    rfl

theorem lookupFunction_of_defineFunction? {scope extended : Scope Variable Function}
    {name : String} {arity : Nat} {binding : Function}
    (defined : scope.defineFunction? name arity binding = some extended)
    (other : String) (otherArity : Nat) :
    extended.lookupFunction other otherArity =
      if (other, otherArity) = (name, arity) then some binding
      else scope.lookupFunction other otherArity := by
  unfold defineFunction? at defined
  split at defined
  · cases defined
  · cases defined
    by_cases equal : (other, otherArity) = (name, arity)
    · simp [lookupFunction, equal]
    · have different : ((other, otherArity) == (name, arity)) = false := beq_false_of_ne equal
      simp only [lookupFunction, List.lookup_cons, different, if_neg equal]

theorem lookup_of_defineFunction? {scope extended : Scope Variable Function}
    {name : String} {arity : Nat} {binding : Function}
    (defined : scope.defineFunction? name arity binding = some extended) (other : String) :
    extended.lookup other = scope.lookup other := by
  unfold defineFunction? at defined
  split at defined
  · cases defined
  · cases defined
    rfl

end Scope

end Plc
