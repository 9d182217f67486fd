import Plc.Proofs.Scope.History

/-! Names in a tree of scopes. Whatever was done to the tree, a name stands for the first
definition that the nearest scope around has of it. So a definition is seen from the scopes
at and below its own, up to those that have a nearer one, and an assignment is seen wherever
a name leads to the same cell. -/

namespace Plc.Scope.History

/-- `place` is the nearest scope that has what is looked for, from `position` outward. -/
inductive Nearest (history : History) (has : Nat → Prop) : Nat → Nat → Prop where
  | here {position : Nat} (found : has position) : Nearest history has position position
  | outward {position outer place : Nat} (missing : ¬has position)
      (inside : history.parent? position = some outer)
      (nearest : Nearest history has outer place) : Nearest history has position place

/-- A name stands for what the nearest scope that has it has. A function needs to have the
right arity as well. -/
structure Resolves (history : History) (machine : Machine) : Prop where
  bindings : ∀ position name found, machine.scopes.lookup position name = some found ↔
    ∃ place, history.Nearest (fun other => (history.binding? other name).isSome) position place ∧
      history.binding? place name = some found
  functions : ∀ position name arity found,
    machine.scopes.lookupFunction position name arity = some found ↔
      ∃ place,
        history.Nearest (fun other => (history.function? other name arity).isSome) position place ∧
        history.function? place name arity = some found

def Taken (history : History) : Edit → Prop
  | .define position name _ _ _ => (history.binding? position name).isSome
  | .share position binding => (history.binding? position binding.name).isSome
  | .defineFunction position function =>
      (history.function? position function.signature.name function.signature.arity).isSome
  | .child _ | .assign _ _ => False

/-- From the scope at `place`, the one at `position` comes before all that have the
variable. -/
def Reaches (history : History) (name : String) (place position : Nat) : Prop :=
  history.Nearest (fun other => other = position ∨ (history.binding? other name).isSome) place
    position

/-- The variable is seen from the scopes that reach it, and nothing else changed. -/
structure Gains (history : History) (position : Nat) (binding : Machine.Variable)
    (value : Value) (before after : Machine) : Prop where
  defined : ∀ place, history.Reaches binding.name place position →
    after.scopes.lookup place binding.name = some binding ∧
      after.seen place binding.name = some value
  others : ∀ place name, ¬(name = binding.name ∧ history.Reaches name place position) →
    after.scopes.lookup place name = before.scopes.lookup place name ∧
      after.seen place name = before.seen place name
  functions : ∀ place name arity,
    after.scopes.lookupFunction place name arity = before.scopes.lookupFunction place name arity

/-- The function is seen from the scopes that have no nearer one of its name and arity. -/
structure GainsFunction (history : History) (position : Nat) (function : Machine.Function)
    (before after : Machine) : Prop where
  defined : ∀ place,
    history.Nearest (fun other => other = position ∨ (history.function? other
      function.signature.name function.signature.arity).isSome) place position →
    after.scopes.lookupFunction place function.signature.name function.signature.arity =
      some function
  others : ∀ place name arity,
    ¬((name, arity) = (function.signature.name, function.signature.arity) ∧
      history.Nearest (fun other => other = position ∨
        (history.function? other name arity).isSome) place position) →
    after.scopes.lookupFunction place name arity = before.scopes.lookupFunction place name arity
  bindings : ∀ place name,
    after.scopes.lookup place name = before.scopes.lookup place name ∧
      after.seen place name = before.seen place name

/-- The value is seen wherever a name leads to the cell, and nowhere else. -/
structure Stores (target : Machine.Variable) (value : Value) (before after : Machine) :
    Prop where
  seen : ∀ place name found, before.scopes.lookup place name = some found →
    after.seen place name =
      if found.cell = target.cell then some value else before.seen place name
  bindings : ∀ place name,
    after.scopes.lookup place name = before.scopes.lookup place name
  functions : ∀ place name arity,
    after.scopes.lookupFunction place name arity = before.scopes.lookupFunction place name arity

/-- What becomes of a machine. A variable that is not shared has a cell that no name led to. -/
def Effect (history : History) (before after : Machine) : Edit → Prop
  | .child position => ∀ place name arity,
      let origin := if place = history.scopeCount then position else place
      after.scopes.lookup place name = before.scopes.lookup origin name ∧
        after.seen place name = before.seen origin name ∧
        after.scopes.lookupFunction place name arity =
          before.scopes.lookupFunction origin name arity
  | .define position name type isMutable value =>
      history.Gains position ⟨name, type, isMutable, history.cellCount⟩ value before after ∧
        ∀ place other found, before.scopes.lookup place other = some found →
          found.cell ≠ history.cellCount
  | .share position binding =>
      history.Gains position binding (before.cell binding.cell) before after
  | .defineFunction position function => history.GainsFunction position function before after
  | .assign target value => Stores target value before after

variable {output : Output} {history : History} {edit : Edit}

/-! ## The nearest scope -/

namespace Nearest

variable {has : Nat → Prop} {position outer place : Nat}

theorem eq_of_has (found : has position) (nearest : history.Nearest has position place) :
    place = position := by
  cases nearest with
  | here _ => rfl
  | outward missing _ _ => exact absurd found missing

theorem iff_outer (missing : ¬has position) (inside : history.parent? position = some outer) :
    history.Nearest has position place ↔ history.Nearest has outer place := by
  constructor
  · intro nearest
    cases nearest with
    | here found => exact absurd found missing
    | outward _ around nearest =>
        rw [inside] at around
        cases around
        exact nearest
  · exact .outward missing inside

theorem not_of_root (missing : ¬has position) (root : history.parent? position = none) :
    ¬history.Nearest has position place := by
  intro nearest
  cases nearest with
  | here found => exact missing found
  | outward _ around _ =>
      rw [root] at around
      cases around

end Nearest

namespace Shaped

theorem findSome?_eq_some_iff (shaped : Shaped output history) (own : Nat → Option α)
    (found : α) (position : Nat) :
    ((history.machine output).scopes.path position).findSome? own = some found ↔
      ∃ place, history.Nearest (fun other => (own other).isSome) position place ∧
        own place = some found := by
  -- A scope was made after the one around it.
  induction position using Nat.strongRecOn with
  | ind position induction =>
      rw [shaped.findSome?_path]
      cases here : own position with
      | some other =>
          have has := Option.isSome_of_eq_some here
          rw [Option.some_or, ← here]
          constructor
          · intro owned
            exact ⟨position, .here has, owned⟩
          · rintro ⟨place, nearest, owned⟩
            rw [← nearest.eq_of_has has, owned]
      | none =>
          have missing : ¬(own position).isSome = true := by simp [here]
          rw [Option.none_or]
          cases inside : history.parent? position with
          | none =>
              have unknown : ∀ place,
                  ¬history.Nearest (fun other => (own other).isSome) position place :=
                fun _ => Nearest.not_of_root missing inside
              simp [unknown]
          | some outer =>
              have outward : ∀ place,
                  history.Nearest (fun other => (own other).isSome) position place ↔
                    history.Nearest (fun other => (own other).isSome) outer place :=
                fun _ => Nearest.iff_outer missing inside
              simp only [outward]
              exact induction outer (shaped.parents position outer inside).1

/-- A scope gains what it does not have. It is found from where that scope comes first, and
from elsewhere all is as before. -/
theorem findSome?_extended (shaped : Shaped output history) (own extended : Nat → Option α)
    {target : Nat} {added : α} (free : own target = none)
    (grown : ∀ place, extended place =
      (own place).or (if place = target then some added else none)) (position : Nat) :
    (history.Nearest (fun other => other = target ∨ (own other).isSome) position target →
      ((history.machine output).scopes.path position).findSome? extended = some added) ∧
    (¬history.Nearest (fun other => other = target ∨ (own other).isSome) position target →
      ((history.machine output).scopes.path position).findSome? extended =
        ((history.machine output).scopes.path position).findSome? own) := by
  induction position using Nat.strongRecOn with
  | ind position induction =>
      rw [shaped.findSome?_path, shaped.findSome?_path, grown]
      by_cases here : position = target
      · subst here
        rw [free, if_pos rfl]
        exact ⟨fun _ => rfl, fun far => absurd (.here (.inl rfl)) far⟩
      · rw [if_neg here, Option.or_none]
        cases owned : own position with
        | some found =>
            have has := Option.isSome_of_eq_some owned
            exact ⟨fun nearest => absurd (nearest.eq_of_has (.inr has)).symm here, fun _ => rfl⟩
        | none =>
            have missing : ¬(position = target ∨ (own position).isSome = true) := by
              simp [here, owned]
            rw [Option.none_or, Option.none_or]
            cases inside : history.parent? position with
            | none =>
                have unknown : ¬history.Nearest (fun other => other = target ∨ (own other).isSome)
                    position target := Nearest.not_of_root missing inside
                exact ⟨fun nearest => absurd nearest unknown, fun _ => rfl⟩
            | some outer =>
                have outward :
                    history.Nearest (fun other => other = target ∨ (own other).isSome)
                        position target ↔
                      history.Nearest (fun other => other = target ∨ (own other).isSome)
                        outer target := Nearest.iff_outer missing inside
                rw [outward]
                exact induction outer (shaped.parents position outer inside).1

end Shaped

namespace Recorded

/-! ## What an edit does -/

theorem resolves (recorded : Recorded output history) :
    history.Resolves (history.machine output) where
  bindings position name found := by
    simp only [← recorded.bindings]
    exact recorded.shaped.findSome?_eq_some_iff _ found position
  functions position name arity found := by
    simp only [← recorded.functions]
    exact recorded.shaped.findSome?_eq_some_iff _ found position

/-- Every variable that a name stands for has a cell. -/
theorem stored_of_lookup (recorded : Recorded output history) {place : Nat} {name : String}
    {found : Machine.Variable}
    (known : (history.machine output).scopes.lookup place name = some found) :
    found.cell < (history.machine output).cells.size := by
  rcases Tree.exists_of_lookup known with ⟨position, _, bound⟩
  rw [recorded.bindings] at bound
  rw [recorded.cells]
  exact recorded.stored position name found bound

theorem seen_eq (recorded : Recorded output history) {after : Machine} {place origin : Nat}
    {name : String} (found : after.scopes.lookup place name =
      (history.machine output).scopes.lookup origin name)
    (cells : ∀ number < (history.machine output).cells.size,
      after.cell number = (history.machine output).cell number) :
    after.seen place name = (history.machine output).seen origin name := by
  rw [Machine.seen, Machine.seen, found]
  cases known : (history.machine output).scopes.lookup origin name with
  | none => rfl
  | some binding =>
      rw [Option.map_some, Option.map_some, cells _ (recorded.stored_of_lookup known)]

theorem perform_eq_false_iff (recorded : Recorded output history) (edit : Edit) :
    (((history.machine output).perform edit).1 = false ↔ history.Taken edit) ∧
      (history.Taken edit → ((history.machine output).perform edit).2 =
        history.machine output) := by
  cases edit with
  | child position => simp [Machine.perform, Taken]
  | define position name type isMutable value =>
      rw [Taken, Machine.perform, ← recorded.bindings]
      rcases (history.machine output).defineVariable_cases position name type isMutable value with
        ⟨taken, same⟩ | ⟨free, _, _, same⟩
      · simp [same, taken]
      · simp [same, free]
  | share position binding =>
      rw [Taken, Machine.perform, ← recorded.bindings]
      rcases (history.machine output).scopes.defineVariable_cases position binding.name binding
        with ⟨taken, same⟩ | ⟨free, _, _, same⟩
      · simp [same, taken]
      · simp [same, free]
  | defineFunction position function =>
      rw [Taken, Machine.perform, ← recorded.functions]
      cases known : ((history.machine output).scopes.scope position).lookupFunction
          function.signature.name function.signature.arity with
      | some found =>
          rw [Machine.defineFunction_of_taken (Option.isSome_of_eq_some known)]
          simp
      | none =>
          rcases Machine.defineFunction_of_free known with ⟨_, _, same⟩
          simp [same]
  | assign target value => simp [Machine.perform, Taken]

theorem gains (recorded : Recorded output history) {position : Nat} {after : Machine}
    {binding : Machine.Variable} {value : Value} (present : position < history.scopeCount)
    (free : ¬(history.binding? position binding.name).isSome)
    (scopes : after.scopes =
      ((history.machine output).scopes.defineVariable position binding.name binding).2)
    (cells : ∀ number < (history.machine output).cells.size,
      after.cell number = (history.machine output).cell number)
    (stored : after.cell binding.cell = value) :
    history.Gains position binding value (history.machine output) after := by
  rw [← recorded.shaped.size] at present
  rw [← recorded.bindings, Bool.not_eq_true, Option.isSome_eq_false_iff,
    Option.isNone_iff_eq_none] at free
  have path : ∀ place, after.scopes.path place = (history.machine output).scopes.path place := by
    intro place
    rw [scopes, Tree.path, (Tree.outer_defineVariable _ position binding.name binding).2]
    rfl
  have own := (history.machine output).scopes.lookup_defineVariable present binding.name binding
  rw [← scopes] at own
  have named : ∀ place, (after.scopes.scope place).lookup binding.name =
      (((history.machine output).scopes.scope place).lookup binding.name).or
        (if place = position then some binding else none) := by
    intro place
    simp only [own, and_true]
  have found := recorded.shaped.findSome?_extended
    (fun place => ((history.machine output).scopes.scope place).lookup binding.name) _ free named
  simp only [recorded.bindings] at found
  constructor
  · intro place reaches
    have known : after.scopes.lookup place binding.name = some binding := by
      rw [Tree.lookup, path]
      exact (found place).1 reaches
    rw [Machine.seen, known, Option.map_some, stored]
    exact ⟨rfl, rfl⟩
  · intro place name far
    have known : after.scopes.lookup place name =
        (history.machine output).scopes.lookup place name := by
      by_cases same : name = binding.name
      · subst same
        rw [Tree.lookup, path]
        simp only [Tree.lookup, recorded.bindings]
        exact (found place).2 fun reaches => far ⟨rfl, reaches⟩
      · apply Tree.lookup_congr (path place)
        intro other _
        rw [own, if_neg fun both => same both.2, Option.or_none]
    exact ⟨known, recorded.seen_eq known cells⟩
  · intro place name arity
    apply Tree.lookupFunction_congr (path place)
    intro other _
    rw [scopes, Tree.lookupFunction_defineVariable _ present]

theorem gainsFunction (recorded : Recorded output history) {position : Nat}
    {function : Machine.Function} (present : position < history.scopeCount)
    (free : ¬(history.function? position function.signature.name
      function.signature.arity).isSome) :
    history.GainsFunction position function (history.machine output)
      ((history.machine output).defineFunction position function).2 := by
  rw [← recorded.shaped.size] at present
  rw [← recorded.functions, Bool.not_eq_true, Option.isSome_eq_false_iff,
    Option.isNone_iff_eq_none] at free
  have path : ∀ place,
      ((history.machine output).defineFunction position function).2.scopes.path place =
        (history.machine output).scopes.path place := by
    intro place
    rw [Tree.path, (Machine.outer_defineFunction _ position function).2]
    rfl
  have own := (history.machine output).lookupFunction_defineFunction_eq present function
  have named : ∀ place,
      (((history.machine output).defineFunction position function).2.scopes.scope
        place).lookupFunction function.signature.name function.signature.arity =
      (((history.machine output).scopes.scope place).lookupFunction function.signature.name
        function.signature.arity).or (if place = position then some function else none) := by
    intro place
    simp only [own, and_true]
  have found := recorded.shaped.findSome?_extended
    (fun place => ((history.machine output).scopes.scope place).lookupFunction
      function.signature.name function.signature.arity) _ free named
  simp only [recorded.functions] at found
  constructor
  · intro place reaches
    rw [Tree.lookupFunction, path]
    exact (found place).1 reaches
  · intro place name arity far
    by_cases same : (name, arity) = (function.signature.name, function.signature.arity)
    · cases same
      rw [Tree.lookupFunction, path]
      simp only [Tree.lookupFunction, recorded.functions]
      exact (found place).2 fun reaches => far ⟨rfl, reaches⟩
    · apply Tree.lookupFunction_congr (path place)
      intro other _
      rw [own, if_neg fun both => same both.2, Option.or_none]
  · intro place name
    have known := Tree.lookup_congr (path place) fun other _ =>
      (history.machine output).lookup_defineFunction position other function name
    exact ⟨known, recorded.seen_eq known fun _ _ => rfl⟩

theorem stores (recorded : Recorded output history) {target : Machine.Variable}
    (met : history.Met target) (value : Value) :
    Stores target value (history.machine output)
      ((history.machine output).setCell target.cell value) where
  seen place name found known := by
    have present := recorded.stored_of_met met
    rw [← recorded.cells] at present
    have same : ((history.machine output).setCell target.cell value).scopes =
        (history.machine output).scopes := rfl
    rw [Machine.seen, Machine.seen, same, known, Option.map_some, Option.map_some]
    split
    · rename_i shared
      rw [shared]
      simp [Machine.cell, Machine.setCell, present]
    · rename_i apart
      rw [Machine.cell_setCell_of_ne _ value apart]
  bindings _ _ := rfl
  functions _ _ _ := rfl

theorem child (recorded : Recorded output history) (position : Nat) :
    history.Effect (history.machine output) ((history.machine output).child position).2
      (.child position) := by
  intro place name arity
  by_cases new : place = history.scopeCount
  · subst new
    simp only [if_true, ← recorded.shaped.size]
    have known := (history.machine output).scopes.lookup_child position name
    exact ⟨known, recorded.seen_eq known fun _ _ => rfl,
      (history.machine output).scopes.lookupFunction_child position name arity⟩
  · have path : ((history.machine output).child position).2.scopes.path place =
        (history.machine output).scopes.path place := by
      rw [← recorded.shaped.size] at new
      have outer := (history.machine output).scopes.outer_child position place
      rw [if_neg new] at outer
      exact congrArg (place :: ·) outer
    have scopes := fun other => (history.machine output).scopes.scope_child position other
    have known : ((history.machine output).child position).2.scopes.lookup place name =
        (history.machine output).scopes.lookup place name :=
      Tree.lookup_congr path fun other _ => congrArg (·.lookup name) (scopes other)
    simp only [if_neg new]
    exact ⟨known, recorded.seen_eq known fun _ _ => rfl, Tree.lookupFunction_congr path
      fun other _ => congrArg (·.lookupFunction name arity) (scopes other)⟩

end Recorded

theorem Recorded.effect (recorded : Recorded output history) (permits : history.Permits edit)
    (free : ¬history.Taken edit) :
    history.Effect (history.machine output) ((history.machine output).perform edit).2 edit := by
  cases edit with
  | child position => exact recorded.child position
  | define position name type isMutable value =>
      have unknown : ((history.machine output).scopes.scope position).lookup name = none := by
        rw [recorded.bindings]
        simpa [Taken] using free
      have last : ((history.machine output).defineVariable position name type isMutable
          value).2.cell history.cellCount = value := by
        rw [← recorded.cells]
        rcases (history.machine output).defineVariable_cases position name type isMutable value
          with ⟨taken, _⟩ | ⟨_, _, _, same⟩
        · rw [unknown] at taken
          cases taken
        · simp [same, Machine.cell]
      constructor
      · apply recorded.gains permits.1
        · exact free
        · rw [← recorded.cells]
          rfl
        · intro number present
          exact Machine.cell_defineVariable_of_lt _ position name type isMutable value present
        · exact last
      · intro place other found known
        have stored := recorded.stored_of_lookup known
        rw [recorded.cells] at stored
        exact Nat.ne_of_lt stored
  | share position binding =>
      exact recorded.gains permits.1 free rfl (fun _ _ => rfl) rfl
  | defineFunction position function => exact recorded.gainsFunction permits.1 free
  | assign target value => exact recorded.stores permits.2 value

/-- After any history of a tree of scopes, a name stands for what the nearest scope around has
under it. A definition is refused exactly where the scope has the name, and then changes
nothing; else it is found where no nearer one is, and a value that is stored is seen wherever
the name leads to its cell. -/
theorem lookup_nearest (output : Output) (history : History) (valid : history.Valid) :
    history.Resolves (history.machine output) ∧
    ∀ edit, history.Permits edit →
      (((history.machine output).perform edit).1 = false ↔ history.Taken edit) ∧
      (history.Taken edit →
        ((history.machine output).perform edit).2 = history.machine output) ∧
      (¬history.Taken edit →
        history.Effect (history.machine output) ((history.machine output).perform edit).2
          edit) := by
  have recorded := valid.recorded output
  refine ⟨recorded.resolves, ?_⟩
  intro edit permits
  rcases recorded.perform_eq_false_iff edit with ⟨refused, unchanged⟩
  exact ⟨refused, unchanged, recorded.effect permits⟩

/-- Two scopes inside the outermost one, which gets its `x` after they are made and before the
one between them has its own. -/
theorem lookup_nearest_of_late_definition :
    let nested : History := (History.start.next (.child 0)).next (.child 1)
    let history := (nested.next (.define 0 "x" .any true (.integer 1))).next
      (.define 1 "x" .any true (.integer 2))
    let outermost : Machine.Variable := ⟨"x", .any, true, 0⟩
    let machine := history.machine (.empty none)
    let after := (machine.perform (.assign outermost (.integer 5))).2
    history.Valid ∧ history.Permits (.assign outermost (.integer 5)) ∧
    machine.scopes.lookup 0 "x" = some outermost ∧
    machine.scopes.lookup 2 "x" = some ⟨"x", .any, true, 1⟩ ∧
    after.seen 0 "x" = some (.integer 5) ∧ after.seen 2 "x" = machine.seen 2 "x" := by
  intro nested history outermost machine after
  have valid : history.Valid :=
    .next (.next (.next (.next .start ⟨Nat.zero_lt_one, trivial⟩) ⟨Nat.one_lt_two, trivial⟩)
      ⟨Nat.zero_lt_succ 2, trivial⟩) ⟨Nat.succ_lt_succ (Nat.zero_lt_succ 1), trivial⟩
  have permits : history.Permits (.assign outermost (.integer 5)) :=
    ⟨trivial, history, 0, "x", .here, rfl⟩
  rcases lookup_nearest (.empty none) history valid with ⟨resolves, edits⟩
  have outer : machine.scopes.lookup 0 "x" = some outermost :=
    (resolves.bindings 0 "x" _).mpr ⟨0, .here rfl, rfl⟩
  have inner : machine.scopes.lookup 2 "x" = some ⟨"x", .any, true, 1⟩ :=
    (resolves.bindings 2 "x" _).mpr ⟨1, .outward (by decide) rfl (.here rfl), rfl⟩
  have stores := (edits _ permits).2.2 id
  exact ⟨valid, permits, outer, inner, stores.seen 0 "x" _ outer, stores.seen 2 "x" _ inner⟩

end Plc.Scope.History
