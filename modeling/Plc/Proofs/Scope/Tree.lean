import Plc.Scope.Tree

/-! What each operation on a tree of scopes does to the scope at a position and
to the positions around it. A position that does not exist has an empty scope
with nothing around it. -/

namespace Plc.Scope.Tree

variable {Variable Function : Type}

@[simp] theorem size_child (tree : Tree Variable Function) (position : Nat) :
    (tree.child position).2.places.size = tree.places.size + 1 := by
  simp [child]

@[simp] theorem scope_child (tree : Tree Variable Function) (position other : Nat) :
    (tree.child position).2.scope other = tree.scope other := by
  simp only [child, scope, Array.getElem?_push]
  by_cases new : other = tree.places.size
  · subst new
    simp
  · simp [new]

theorem outer_child_of_lt (tree : Tree Variable Function) (position : Nat) {other : Nat}
    (present : other < tree.places.size) :
    (tree.child position).2.outer other = tree.outer other := by
  simp only [child, outer, Array.getElem?_push]
  rw [if_neg (Nat.ne_of_lt present)]

theorem scope_of_le {tree : Tree Variable Function} {position : Nat}
    (absent : tree.places.size ≤ position) : tree.scope position = Scope.empty := by
  simp [scope, Array.getElem?_eq_none absent]

theorem outer_of_le {tree : Tree Variable Function} {position : Nat}
    (absent : tree.places.size ≤ position) : tree.outer position = [] := by
  simp [outer, Array.getElem?_eq_none absent]

@[simp] theorem outer_child_new (tree : Tree Variable Function) (position : Nat) :
    (tree.child position).2.outer tree.places.size = tree.path position := by
  simp [child, outer]

theorem outer_child (tree : Tree Variable Function) (position other : Nat) :
    (tree.child position).2.outer other =
      if other = tree.places.size then tree.path position else tree.outer other := by
  by_cases new : other = tree.places.size
  · rw [if_pos new, new, outer_child_new]
  · simp only [child, outer, Array.getElem?_push]
    rw [if_neg new, if_neg new]

@[simp] theorem size_setScope (tree : Tree Variable Function) (position : Nat)
    (scope : Scope Variable Function) :
    (tree.setScope position scope).places.size = tree.places.size := by
  simp [setScope]

@[simp] theorem outer_setScope (tree : Tree Variable Function) (position other : Nat)
    (scope : Scope Variable Function) :
    (tree.setScope position scope).outer other = tree.outer other := by
  simp only [setScope, outer, Array.getElem?_modify]
  by_cases same : position = other
  · subst same
    cases tree.places[position]? <;> simp
  · simp [same]

theorem scope_setScope_of_ne (tree : Tree Variable Function) {position other : Nat}
    (scope : Scope Variable Function) (different : other ≠ position) :
    (tree.setScope position scope).scope other = tree.scope other := by
  simp only [setScope, Tree.scope, Array.getElem?_modify]
  rw [if_neg (Ne.symm different)]

theorem scope_setScope_self (tree : Tree Variable Function) {position : Nat}
    (scope : Scope Variable Function) (present : position < tree.places.size) :
    (tree.setScope position scope).scope position = scope := by
  simp only [setScope, Tree.scope, Array.getElem?_modify, if_true]
  rw [Array.getElem?_eq_getElem present]
  rfl

/-- Nothing is set at a position that does not exist. -/
theorem scope_setScope (tree : Tree Variable Function) (position other : Nat)
    (scope : Scope Variable Function) :
    (tree.setScope position scope).scope other =
      if other = position ∧ position < tree.places.size then scope else tree.scope other := by
  by_cases same : other = position
  · subst same
    by_cases present : other < tree.places.size
    · rw [if_pos ⟨rfl, present⟩, scope_setScope_self _ _ present]
    · rw [if_neg fun both => present both.2, scope_of_le (Nat.le_of_not_lt present), scope_of_le]
      rw [size_setScope]
      exact Nat.le_of_not_lt present
  · rw [if_neg fun both => same both.1, scope_setScope_of_ne _ _ same]

theorem lookup_setScope_defined {tree : Tree Variable Function} {position place : Nat}
    {name : String} {binding : Variable} {extended : Scope Variable Function}
    (defined : (tree.scope position).defineVariable? name binding = some extended)
    (present : place < tree.places.size) (other : String) :
    ((tree.setScope position extended).scope place).lookup other =
      if place = position ∧ other = name then some binding
      else (tree.scope place).lookup other := by
  by_cases same : place = position
  · subst same
    rw [scope_setScope_self _ _ present, lookup_of_defineVariable? defined]
    simp
  · rw [scope_setScope_of_ne _ _ same, if_neg fun both => same both.1]

theorem lookupFunction_setScope_defined {tree : Tree Variable Function} {position place : Nat}
    {name : String} {binding : Variable} {extended : Scope Variable Function}
    (defined : (tree.scope position).defineVariable? name binding = some extended)
    (present : place < tree.places.size) (other : String) (arity : Nat) :
    ((tree.setScope position extended).scope place).lookupFunction other arity =
      (tree.scope place).lookupFunction other arity := by
  by_cases same : place = position
  · subst same
    rw [scope_setScope_self _ _ present]
    exact lookupFunction_of_defineVariable? defined other arity
  · rw [scope_setScope_of_ne _ _ same]

theorem lookupFunction_setScope_definedFunction {tree : Tree Variable Function}
    {position place : Nat} {name : String} {arity : Nat} {binding : Function}
    {extended : Scope Variable Function}
    (defined : (tree.scope position).defineFunction? name arity binding = some extended)
    (present : place < tree.places.size) (other : String) (otherArity : Nat) :
    ((tree.setScope position extended).scope place).lookupFunction other otherArity =
      if place = position ∧ (other, otherArity) = (name, arity) then some binding
      else (tree.scope place).lookupFunction other otherArity := by
  by_cases same : place = position
  · subst same
    rw [scope_setScope_self _ _ present, lookupFunction_of_defineFunction? defined]
    simp
  · rw [scope_setScope_of_ne _ _ same, if_neg fun both => same both.1]

theorem lookup_setScope_definedFunction {tree : Tree Variable Function} {position place : Nat}
    {name : String} {arity : Nat} {binding : Function} {extended : Scope Variable Function}
    (defined : (tree.scope position).defineFunction? name arity binding = some extended)
    (present : place < tree.places.size) (other : String) :
    ((tree.setScope position extended).scope place).lookup other =
      (tree.scope place).lookup other := by
  by_cases same : place = position
  · subst same
    rw [scope_setScope_self _ _ present]
    exact lookup_of_defineFunction? defined other
  · rw [scope_setScope_of_ne _ _ same]

theorem lookup_eq (tree : Tree Variable Function) (position : Nat) (name : String) :
    tree.lookup position name =
      ((tree.scope position).lookup name).or
        ((tree.outer position).findSome? fun place => (tree.scope place).lookup name) := by
  rw [lookup, path, List.findSome?_cons]
  cases (tree.scope position).lookup name <;> rfl

theorem lookupFunction_eq (tree : Tree Variable Function) (position : Nat) (name : String)
    (arity : Nat) :
    tree.lookupFunction position name arity =
      ((tree.scope position).lookupFunction name arity).or
        ((tree.outer position).findSome? fun place =>
          (tree.scope place).lookupFunction name arity) := by
  rw [lookupFunction, path, List.findSome?_cons]
  cases (tree.scope position).lookupFunction name arity <;> rfl

theorem lookup_of_outer_eq_nil {tree : Tree Variable Function} {position : Nat}
    (outermost : tree.outer position = []) (name : String) :
    tree.lookup position name = (tree.scope position).lookup name := by
  simp [lookup_eq, outermost]

theorem lookupFunction_of_outer_eq_nil {tree : Tree Variable Function} {position : Nat}
    (outermost : tree.outer position = []) (name : String) (arity : Nat) :
    tree.lookupFunction position name arity =
      (tree.scope position).lookupFunction name arity := by
  simp [lookupFunction_eq, outermost]

private theorem findSome?_congr {positions : List Nat} {left right : Nat → Option α}
    (same : ∀ place ∈ positions, left place = right place) :
    positions.findSome? left = positions.findSome? right := by
  induction positions with
  | nil => rfl
  | cons head tail induction =>
      rw [List.findSome?_cons, List.findSome?_cons, same head List.mem_cons_self,
        induction fun place member => same place (List.mem_cons_of_mem _ member)]

theorem lookup_congr {tree other : Tree Variable Function} {position : Nat} {name : String}
    (path : other.path position = tree.path position)
    (same : ∀ place ∈ tree.path position,
      (other.scope place).lookup name = (tree.scope place).lookup name) :
    other.lookup position name = tree.lookup position name := by
  rw [lookup, lookup, path]
  exact findSome?_congr same

theorem lookupFunction_congr {tree other : Tree Variable Function} {position : Nat}
    {name : String} {arity : Nat} (path : other.path position = tree.path position)
    (same : ∀ place ∈ tree.path position,
      (other.scope place).lookupFunction name arity =
        (tree.scope place).lookupFunction name arity) :
    other.lookupFunction position name arity = tree.lookupFunction position name arity := by
  rw [lookupFunction, lookupFunction, path]
  exact findSome?_congr same

@[simp] theorem path_setScope (tree : Tree Variable Function) (position other : Nat)
    (scope : Scope Variable Function) :
    (tree.setScope position scope).path other = tree.path other := by
  rw [path, path, outer_setScope]

theorem lookup_of_defined {tree : Tree Variable Function} {position : Nat} {name : String}
    {binding : Variable} {extended : Scope Variable Function}
    (defined : (tree.scope position).defineVariable? name binding = some extended)
    (inside : ∀ place ∈ tree.path position, place < tree.places.size) (other : String) :
    (tree.setScope position extended).lookup position other =
      if other = name then some binding else tree.lookup position other := by
  by_cases same : other = name
  · rw [if_pos same, lookup_eq,
      lookup_setScope_defined defined (inside position List.mem_cons_self), if_pos ⟨rfl, same⟩]
    rfl
  · rw [if_neg same]
    apply lookup_congr (tree.path_setScope position position extended)
    intro place member
    rw [lookup_setScope_defined defined (inside place member), if_neg fun both => same both.2]

theorem lookupFunction_of_defined {tree : Tree Variable Function} {position : Nat}
    {name : String} {binding : Variable} {extended : Scope Variable Function}
    (defined : (tree.scope position).defineVariable? name binding = some extended)
    (inside : ∀ place ∈ tree.path position, place < tree.places.size) (other : String)
    (arity : Nat) :
    (tree.setScope position extended).lookupFunction position other arity =
      tree.lookupFunction position other arity :=
  lookupFunction_congr (tree.path_setScope position position extended) fun place member =>
    lookupFunction_setScope_defined defined (inside place member) other arity

/-! ## What is found -/

theorem lt_size_of_lookup {tree : Tree Variable Function} {position : Nat} {name : String}
    {found : Variable} (known : (tree.scope position).lookup name = some found) :
    position < tree.places.size := by
  by_cases present : position < tree.places.size
  · exact present
  · rw [scope_of_le (Nat.le_of_not_lt present), Scope.lookup_empty] at known
    cases known

theorem lt_size_of_lookupFunction {tree : Tree Variable Function} {position arity : Nat}
    {name : String} {found : Function}
    (known : (tree.scope position).lookupFunction name arity = some found) :
    position < tree.places.size := by
  by_cases present : position < tree.places.size
  · exact present
  · rw [scope_of_le (Nat.le_of_not_lt present), Scope.lookupFunction_empty] at known
    cases known

theorem exists_of_lookup {tree : Tree Variable Function} {position : Nat} {name : String}
    {found : Variable} (known : tree.lookup position name = some found) :
    ∃ place ∈ tree.path position, (tree.scope place).lookup name = some found :=
  List.exists_of_findSome?_eq_some known

theorem exists_of_lookupFunction {tree : Tree Variable Function} {position arity : Nat}
    {name : String} {found : Function}
    (known : tree.lookupFunction position name arity = some found) :
    ∃ place ∈ tree.path position, (tree.scope place).lookupFunction name arity = some found :=
  List.exists_of_findSome?_eq_some known

/-! ## New scopes -/

@[simp] theorem scope_size (tree : Tree Variable Function) :
    tree.scope tree.places.size = Scope.empty := by
  simp [scope]

theorem path_child (tree : Tree Variable Function) (position : Nat) :
    (tree.child position).2.path tree.places.size =
      tree.places.size :: tree.path position := by
  rw [path, outer_child_new]

@[simp] theorem lookup_child (tree : Tree Variable Function) (position : Nat) (name : String) :
    (tree.child position).2.lookup tree.places.size name = tree.lookup position name := by
  rw [lookup, path_child, List.findSome?_cons, scope_child, scope_size, Scope.lookup_empty,
    lookup]
  exact findSome?_congr fun place _ => by rw [scope_child]

@[simp] theorem lookupFunction_child (tree : Tree Variable Function) (position : Nat)
    (name : String) (arity : Nat) :
    (tree.child position).2.lookupFunction tree.places.size name arity =
      tree.lookupFunction position name arity := by
  rw [lookupFunction, path_child, List.findSome?_cons, scope_child, scope_size,
    Scope.lookupFunction_empty, lookupFunction]
  exact findSome?_congr fun place _ => by rw [scope_child]

end Plc.Scope.Tree
