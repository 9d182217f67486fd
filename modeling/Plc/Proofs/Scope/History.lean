import Plc.Proofs.Scope.Edit

/-! Histories of scopes: what the edits of a tree, one after another, made of it. A history
says by itself which scopes there are, what each is inside of and what it has, and the machine
agrees. -/

namespace Plc

inductive Scope.History where
  /-- There is a single scope, which knows nothing. -/
  | start
  | next (earlier : History) (edit : Scope.Edit)

namespace Scope.History

def machine (output : Output) : History → Machine
  | .start => .empty output
  | .next earlier edit => ((earlier.machine output).perform edit).2

/-- Scopes are counted in the order in which they are made, from zero. -/
def scopeCount : History → Nat
  | .start => 1
  | .next earlier (.child _) => earlier.scopeCount + 1
  | .next earlier _ => earlier.scopeCount

def parent? : History → Nat → Option Nat
  | .start, _ => none
  | .next earlier (.child outer), position =>
      if position = earlier.scopeCount then some outer else earlier.parent? position
  | .next earlier _, position => earlier.parent? position

mutual

/-- Every variable that is not shared has a cell of its own. -/
def cellCount : History → Nat
  | .start => 0
  | .next earlier (.define position name _ _ _) =>
      match earlier.binding? position name with
      | some _ => earlier.cellCount
      | none => earlier.cellCount + 1
  | .next earlier _ => earlier.cellCount

def binding? : History → Nat → String → Option Machine.Variable
  | .start, _, _ => none
  | .next earlier edit, place, name =>
      (earlier.binding? place name).or (edit.variableFor? earlier.cellCount place name)

end

def function? : History → Nat → String → Nat → Option Machine.Function
  | .start, _, _, _ => none
  | .next earlier edit, place, name, arity =>
      (earlier.function? place name arity).or (edit.functionFor? place name arity)

/-- The second history goes on from the first. -/
inductive Continues (earlier : History) : History → Prop where
  | here : Continues earlier earlier
  | next {later : History} (continues : Continues earlier later) (edit : Edit) :
      Continues earlier (.next later edit)

/-- The variable was there at some time, no matter how long ago. -/
def Met (history : History) (found : Machine.Variable) : Prop :=
  ∃ earlier place name, Continues earlier history ∧ earlier.binding? place name = some found

/-- Scopes have to exist, and cells have to have been met. -/
def Permits (history : History) (edit : Edit) : Prop :=
  edit.Present history.scopeCount ∧
    match edit with
    | .share _ binding => ∃ found, history.Met found ∧ found.cell = binding.cell
    | .assign target _ => history.Met target
    | _ => True

inductive Valid : History → Prop where
  | start : Valid .start
  | next {earlier : History} {edit : Edit} (valid : Valid earlier)
      (permits : earlier.Permits edit) : Valid (.next earlier edit)

variable {output : Output} {history : History} {edit : Edit}

/-! ## What the machine has after a history -/

/-- The scopes of the machine are inside of one another as the history made them. -/
structure Shaped (output : Output) (history : History) : Prop where
  size : (history.machine output).scopes.places.size = history.scopeCount
  parents : ∀ position outer, history.parent? position = some outer →
    outer < position ∧ position < history.scopeCount
  outer : ∀ position, (history.machine output).scopes.outer position =
    match history.parent? position with
    | some outer => (history.machine output).scopes.path outer
    | none => []

namespace Shaped

theorem start : Shaped output .start where
  size := rfl
  parents _ _ inside := by cases inside
  outer position := by
    cases position with
    | zero => rfl
    | succ position => exact Tree.outer_of_le (Nat.succ_le_succ (Nat.zero_le _))

theorem of_outer_eq {later : History} (shaped : Shaped output history)
    (count : later.scopeCount = history.scopeCount)
    (parents : later.parent? = history.parent?)
    (same : (later.machine output).scopes.places.size =
        (history.machine output).scopes.places.size ∧
      ∀ place, (later.machine output).scopes.outer place =
        (history.machine output).scopes.outer place) : Shaped output later where
  size := by rw [same.1, count, shaped.size]
  parents := by
    rw [count, parents]
    exact shaped.parents
  outer position := by
    simp only [Tree.path, same.2, parents]
    exact shaped.outer position

theorem child (shaped : Shaped output history) {outer : Nat}
    (present : outer < history.scopeCount) : Shaped output (.next history (.child outer)) where
  size := by
    have grown := (history.machine output).scopes.size_child outer
    rw [shaped.size] at grown
    exact grown
  parents position around inside := by
    simp only [parent?] at inside
    simp only [scopeCount]
    split at inside
    · cases inside
      omega
    · have parents := shaped.parents position around inside
      omega
  outer position := by
    have placed : ∀ other, ((history.next (.child outer)).machine output).scopes.outer other =
        if other = history.scopeCount then (history.machine output).scopes.path outer
        else (history.machine output).scopes.outer other := by
      rw [← shaped.size]
      exact (history.machine output).scopes.outer_child outer
    simp only [parent?, Tree.path, placed]
    by_cases new : position = history.scopeCount
    · simp only [if_pos new]
      rw [if_neg (Nat.ne_of_lt present)]
    · simp only [if_neg new]
      rw [shaped.outer position]
      cases inside : history.parent? position with
      | none => rfl
      | some around =>
          have parents := shaped.parents position around inside
          dsimp only
          rw [if_neg (by omega), Tree.path]

theorem next (shaped : Shaped output history) (permits : history.Permits edit) :
    Shaped output (.next history edit) := by
  cases edit with
  | child position => exact shaped.child permits.1
  | define position name type isMutable value =>
      exact shaped.of_outer_eq rfl rfl
        ((history.machine output).scopes.outer_defineVariable position name _)
  | share position binding =>
      exact shaped.of_outer_eq rfl rfl
        ((history.machine output).scopes.outer_defineVariable position binding.name binding)
  | defineFunction position function =>
      exact shaped.of_outer_eq rfl rfl
        ((history.machine output).outer_defineFunction position function)
  | assign target value => exact shaped.of_outer_eq rfl rfl ⟨rfl, fun _ => rfl⟩

theorem findSome?_path (shaped : Shaped output history) (own : Nat → Option α)
    (position : Nat) :
    ((history.machine output).scopes.path position).findSome? own =
      (own position).or
        (match history.parent? position with
        | some outer => ((history.machine output).scopes.path outer).findSome? own
        | none => none) := by
  rw [Tree.path, List.findSome?_cons, shaped.outer]
  cases own position with
  | some found => rfl
  | none =>
      cases history.parent? position with
      | some outer => rfl
      | none => rfl

end Shaped

theorem Continues.binding? {earlier : History} (continues : Continues earlier history)
    {place : Nat} {name : String} {found : Machine.Variable}
    (known : earlier.binding? place name = some found) :
    history.binding? place name = some found := by
  induction continues with
  | here => exact known
  | next _ edit induction => rw [History.binding?, induction, Option.some_or]

/-- The machine has what the history says. -/
structure Recorded (output : Output) (history : History) : Prop where
  shaped : Shaped output history
  cells : (history.machine output).cells.size = history.cellCount
  bindings : ∀ place name, ((history.machine output).scopes.scope place).lookup name =
    history.binding? place name
  functions : ∀ place name arity,
    ((history.machine output).scopes.scope place).lookupFunction name arity =
      history.function? place name arity
  stored : ∀ place name found, history.binding? place name = some found →
    found.cell < history.cellCount

namespace Recorded

theorem start : Recorded output .start where
  shaped := .start
  cells := rfl
  bindings place name := by
    cases place <;> rfl
  functions place name arity := by
    cases place <;> rfl
  stored _ _ _ known := by cases known

theorem stored_of_met (recorded : Recorded output history) {found : Machine.Variable}
    (met : history.Met found) : found.cell < history.cellCount := by
  rcases met with ⟨earlier, place, name, continues, known⟩
  exact recorded.stored place name found (continues.binding? known)

theorem next_cells (recorded : Recorded output history) (edit : Edit) :
    ((history.next edit).machine output).cells.size = (history.next edit).cellCount := by
  cases edit with
  | define position name type isMutable value =>
      rw [cellCount, ← recorded.bindings, ← recorded.cells]
      rcases (history.machine output).defineVariable_cases position name type isMutable value with
        ⟨taken, same⟩ | ⟨free, extended, _, same⟩
      · rcases Option.isSome_iff_exists.mp taken with ⟨found, known⟩
        rw [machine, Machine.perform, same, known]
      · rw [machine, Machine.perform, same, free]
        exact Array.size_push value
  | child position => exact recorded.cells
  | share position binding => exact recorded.cells
  | defineFunction position function => exact recorded.cells
  | assign target value => exact (Array.size_setIfInBounds ..).trans recorded.cells

theorem next_stored (recorded : Recorded output history) (permits : history.Permits edit)
    (place : Nat) (name : String) (found : Machine.Variable)
    (known : (history.next edit).binding? place name = some found) :
    found.cell < (history.next edit).cellCount := by
  rw [binding?, Option.or_eq_some_iff] at known
  cases edit with
  | define position other type isMutable value =>
      rw [cellCount]
      rcases known with known | ⟨free, known⟩
      · have old := recorded.stored place name found known
        split <;> omega
      · rw [Edit.variableFor?] at known
        split at known
        · rename_i both
          rcases both with ⟨rfl, rfl⟩
          cases known
          rw [free]
          exact Nat.lt_succ_self _
        · cases known
  | share position binding =>
      rcases known with known | ⟨free, known⟩
      · exact recorded.stored place name found known
      · rw [Edit.variableFor?] at known
        split at known
        · cases known
          rcases permits.2 with ⟨original, met, same⟩
          rw [← same]
          exact recorded.stored_of_met met
        · cases known
  | child position =>
      rcases known with known | ⟨_, known⟩
      · exact recorded.stored place name found known
      · cases known
  | defineFunction position function =>
      rcases known with known | ⟨_, known⟩
      · exact recorded.stored place name found known
      · cases known
  | assign target value =>
      rcases known with known | ⟨_, known⟩
      · exact recorded.stored place name found known
      · cases known

theorem next (recorded : Recorded output history) (permits : history.Permits edit) :
    Recorded output (.next history edit) where
  shaped := recorded.shaped.next permits
  cells := recorded.next_cells edit
  bindings place name := by
    have present := permits.1
    rw [← recorded.shaped.size] at present
    rw [machine, Machine.lookup_perform _ present, recorded.bindings, recorded.cells, binding?]
  functions place name arity := by
    have present := permits.1
    rw [← recorded.shaped.size] at present
    rw [machine, Machine.lookupFunction_perform _ present, recorded.functions, function?]
  stored := recorded.next_stored permits

end Recorded

theorem Valid.recorded (valid : history.Valid) (output : Output) : Recorded output history := by
  induction valid with
  | start => exact .start
  | next _ permits induction => exact induction.next permits

end Scope.History

end Plc
