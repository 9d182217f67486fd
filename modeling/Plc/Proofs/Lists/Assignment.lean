import Plc.Proofs.Session.Constants
import Plc.Proofs.Soundness.Agreement

/-! The effect of an assignment. It finds the variable first, then evaluates the index and the
value, and then writes to one place: the cell of that variable, or one element of the list that
is in the cell by then. If it fails it writes nothing. -/

namespace Plc

/-! ## One write -/

namespace Machine

/-- From `before` to `after` the cell of that number gets the value, and nothing else changes. -/
structure StoresCell (before : Machine) (number : Nat) (value : Value) (after : Machine) :
    Prop where
  present : number < before.cells.size
  written : after.cell number = value
  others : ∀ other, other ≠ number → after.cell other = before.cell other
  size : after.cells.size = before.cells.size
  scopes : after.scopes = before.scopes
  current : after.current = before.current
  memory : after.memory = before.memory

/-- From `before` to `after` one element of one list gets the value, and nothing else changes. -/
structure StoresElement (before : Machine) (id index : Nat) (value : Value) (after : Machine) :
    Prop where
  present : index < (before.memory.lists.elements id).length
  written : (after.memory.lists.elements id)[index]? = some value
  others : ∀ otherId otherIndex, (otherId, otherIndex) ≠ (id, index) →
    (after.memory.lists.elements otherId)[otherIndex]? =
      (before.memory.lists.elements otherId)[otherIndex]?
  size : after.memory.lists.size = before.memory.lists.size
  scopes : after.scopes = before.scopes
  current : after.current = before.current
  cells : after.cells = before.cells
  output : after.memory.output = before.memory.output

theorem storesCell_setCell {machine : Machine} {number : Nat}
    (present : number < machine.cells.size) (value : Value) :
    machine.StoresCell number value (machine.setCell number value) where
  present := present
  written := by simp [cell, setCell, present]
  others _ different := machine.cell_setCell_of_ne value different
  size := by simp [setCell]
  scopes := rfl
  current := rfl
  memory := rfl

theorem storesElement_setElement {machine : Machine} {id index : Nat}
    (present : index < (machine.memory.lists.elements id).length) (value : Value) :
    machine.StoresElement id index value
      { machine with memory := machine.memory.setElement id index value } where
  present := present
  written := by
    rw [Memory.elements_setElement]
    simp [present]
  others otherId otherIndex different := by
    by_cases same : id = otherId
    · subst otherId
      have elsewhere : index ≠ otherIndex := fun equal => different (equal ▸ rfl)
      rw [Memory.elements_setElement, List.getElem?_set_ne elsewhere]
    · rw [Memory.elements_setElement_ne _ same]
  size := by simp [Memory.setElement]
  scopes := rfl
  current := rfl
  cells := rfl
  output := rfl

end Machine

/-! ## What is evaluated -/

namespace Expr

def operands (receiver value : Expr) : List Expr :=
  match receiver with
  | .access _ _ => [value]
  | .element _ _ index => [index, value]
  | _ => []

section

variable {invoke : Invoke} {machine after last : Machine} {head : Expr} {tail : List Expr}

theorem evaluateAll_cons_ok {value : Value} {values : List Value}
    (first : (head.evaluate invoke).run machine = (.ok value, after))
    (rest : (evaluateAll invoke tail).run after = (.ok values, last)) :
    (evaluateAll invoke (head :: tail)).run machine = (.ok (value :: values), last) := by
  rw [evaluateAll, Run.run_bind, first]
  dsimp only
  rw [Run.run_bind, rest]
  rfl

theorem evaluateAll_cons_error {stop : Stop}
    (first : (head.evaluate invoke).run machine = (.error stop, after)) :
    (evaluateAll invoke (head :: tail)).run machine = (.error stop, after) := by
  rw [evaluateAll, Run.run_bind, first]

theorem evaluateAll_cons_rest {value : Value} {stop : Stop}
    (first : (head.evaluate invoke).run machine = (.ok value, after))
    (rest : (evaluateAll invoke tail).run after = (.error stop, last)) :
    (evaluateAll invoke (head :: tail)).run machine = (.error stop, last) := by
  rw [evaluateAll, Run.run_bind, first]
  dsimp only
  rw [Run.run_bind, rest]

end

end Expr

/-! ## Where something is written -/

namespace Run

theorem check_ensures (result : Except RuntimeError α) (machine : Machine) :
    (check result).Ensures machine (fun value after => after = machine ∧ result = .ok value)
      (fun _ after => after = machine) :=
  ensures_check (fun _ given => ⟨rfl, given⟩) fun _ _ => rfl

theorem locate_ensures (container offset : Value) (machine : Machine) :
    (locate container offset).Ensures machine
      (fun place after => after = machine ∧ ∃ number : Int, container = .list place.1 ∧
        offset = .integer number ∧ 0 ≤ number ∧
        number < (machine.memory.lists.elements place.1).length ∧ place.2 = number.toNat)
      (fun _ after => after = machine) := by
  apply (check_ensures container.asList machine).bind
  rintro id _ - ⟨same, isList⟩
  rw [same]
  apply (check_ensures offset.asInteger machine).bind
  rintro number _ - ⟨same, isInteger⟩
  rw [same, Ensures, run_bind, run_get]
  apply (check_ensures (checkedIndex number _) machine).bind
  rintro index _ - ⟨same, isIndex⟩
  apply ensures_pure
  refine ⟨same, number, ?_, ?_, ?_⟩
  · unfold Value.asList at isList
    split at isList <;> cases isList
    rfl
  · unfold Value.asInteger at isInteger
    split at isInteger <;> cases isInteger
    rfl
  · unfold checkedIndex at isIndex
    split at isIndex <;> cases isIndex
    rename_i inside
    exact ⟨inside.1, inside.2, rfl⟩

theorem writeElement_ensures (container offset value : Value) (machine : Machine) :
    (writeElement container offset value).Ensures machine
      (fun _ after => ∃ (id : Nat) (number : Int), container = .list id ∧
        offset = .integer number ∧ 0 ≤ number ∧
        number < (machine.memory.lists.elements id).length ∧
        machine.StoresElement id number.toNat value after)
      (fun _ after => after = machine) := by
  apply (locate_ensures container offset machine).bind
  rintro ⟨id, place⟩ _ - ⟨same, number, isList, isInteger, notBefore, before, rfl⟩
  have present : number.toNat < (machine.memory.lists.elements id).length :=
    (Int.toNat_lt notBefore).mpr before
  rw [same]
  exact ⟨id, number, isList, isInteger, notBefore, before,
    Machine.storesElement_setElement present value⟩

end Run

theorem Expr.mutableVariable_ensures (name : String) (machine : Machine) :
    (Expr.assign.mutableVariable name).Ensures machine
      (fun target after => after = machine ∧
        machine.scopes.lookup machine.current name = some target ∧ target.isMutable = true)
      (fun _ after => after = machine ∧ ∀ target,
        machine.scopes.lookup machine.current name = some target → target.isMutable = false) := by
  apply Run.Ensures.intro
  · intro target after ran
    exact ⟨(Run.Observes.mutableVariable name).after_eq ran, Expr.mutableVariable_eq_ok ran⟩
  · intro stop after ran
    refine ⟨(Run.Observes.mutableVariable name).after_eq ran, ?_⟩
    intro target found
    have known : (Run.findVariable name).run machine = (.ok target, machine) := by
      simp only [Run.findVariable, ExceptT.run, ExceptT.mk, found]
    rw [Expr.assign.mutableVariable, Run.run_bind, known] at ran
    dsimp only at ran
    split at ran
    · cases ran
    · rename_i constant
      exact Bool.eq_false_iff.mpr constant

/-! ## Assignments -/

/-- What comes of an assignment that starts at `start`. -/
inductive Stmt.Assigns (bound : Nat) (receiver value : Expr) (start : Machine) :
    Except Stop Flow → Machine → Prop where
  /-- The variable gets the value. -/
  | plain {node : Node} {name : String} {target : Machine.Variable} {given : Value}
      {evaluated after : Machine} (receives : receiver = .access node name)
      (found : start.scopes.lookup start.current name = some target)
      (isMutable : target.isMutable = true)
      (evaluates : (Expr.evaluateAll (Machine.invoke bound) (receiver.operands value)).run start =
        (.ok [given], evaluated))
      (stores : evaluated.StoresCell target.cell given after) :
      Assigns bound receiver value start (.ok .normal) after
  /-- An element gets the value, in the list that the variable holds by then. -/
  | element {node : Node} {name : String} {index : Expr} {target : Machine.Variable}
      {offset : Int} {given : Value} {id : Nat} {evaluated after : Machine}
      (receives : receiver = .element node name index)
      (found : start.scopes.lookup start.current name = some target)
      (isMutable : target.isMutable = true)
      (evaluates : (Expr.evaluateAll (Machine.invoke bound) (receiver.operands value)).run start =
        (.ok [.integer offset, given], evaluated))
      (holds : evaluated.cell target.cell = .list id)
      (notBefore : 0 ≤ offset) (before : offset < (evaluated.memory.lists.elements id).length)
      (stores : evaluated.StoresElement id offset.toNat given after) :
      Assigns bound receiver value start (.ok .normal) after
  /-- There is nothing to assign to, and nothing is evaluated. -/
  | refused {stop : Stop}
      (unavailable : ∀ name target, receiver.IsReceiverOf name →
        start.scopes.lookup start.current name = some target → target.isMutable = false) :
      Assigns bound receiver value start (.error stop) start
  /-- All that is done is to evaluate, up to a failure or to the end. -/
  | failed {stop : Stop} {evaluated : Machine}
      (evaluates : ((Expr.evaluateAll (Machine.invoke bound) (receiver.operands value)).run
        start).2 = evaluated) :
      Assigns bound receiver value start (.error stop) evaluated

namespace Stmt

variable {bound : Nat} {start : Machine} {receiver value : Expr}

private theorem stored_after {expressions : List Expr} {target : Machine.Variable}
    {values : List Value} {after : Machine}
    (ran : (Expr.evaluateAll (Machine.invoke bound) expressions).run start = (.ok values, after))
    (stored : target.cell < start.cells.size) : target.cell < after.cells.size := by
  have framed :=
    (Expr.evaluateAll_declares (Machine.invoke_declares bound) expressions).framed ran
  exact Nat.lt_of_lt_of_le stored framed.cells

private theorem plain_assigns (node : Node) {name : String} {target : Machine.Variable}
    (found : start.scopes.lookup start.current name = some target)
    (isMutable : target.isMutable = true) (stored : target.cell < start.cells.size) :
    (value.evaluate (Machine.invoke bound) >>= Run.writeCell target.cell).Ensures start
      (fun _ after => Assigns bound (.access node name) value start (.ok .normal) after)
      (fun stop after => Assigns bound (.access node name) value start (.error stop) after) := by
  have first : (value.evaluate (Machine.invoke bound)).Ensures start
      (fun given after => (Expr.evaluateAll (Machine.invoke bound) [value]).run start =
        (.ok [given], after))
      (fun stop after => Assigns bound (.access node name) value start (.error stop) after) := by
    apply Run.Ensures.intro
    · exact fun given after ran => Expr.evaluateAll_cons_ok ran rfl
    · exact fun stop after ran => .failed (congrArg Prod.snd (Expr.evaluateAll_cons_error ran))
  apply first.bind
  intro given after _ evaluates
  exact Assigns.plain rfl found isMutable evaluates
    (Machine.storesCell_setCell (stored_after evaluates stored) given)

private theorem element_assigns (node : Node) {name : String} {index : Expr}
    {target : Machine.Variable}
    (found : start.scopes.lookup start.current name = some target)
    (isMutable : target.isMutable = true) :
    (do
      let offset ← index.evaluate (Machine.invoke bound)
      let newValue ← value.evaluate (Machine.invoke bound)
      Run.writeElement (← Run.readCell target.cell) offset newValue).Ensures start
      (fun _ after => Assigns bound (.element node name index) value start (.ok .normal) after)
      (fun stop after =>
        Assigns bound (.element node name index) value start (.error stop) after) := by
  have first : (index.evaluate (Machine.invoke bound)).Ensures start
      (fun offset after => (index.evaluate (Machine.invoke bound)).run start = (.ok offset, after))
      (fun stop after =>
        Assigns bound (.element node name index) value start (.error stop) after) := by
    apply Run.Ensures.intro
    · exact fun _ _ ran => ran
    · exact fun stop after ran => .failed (congrArg Prod.snd (Expr.evaluateAll_cons_error ran))
  apply first.bind
  intro offset middle _ offsetRan
  have second : (value.evaluate (Machine.invoke bound)).Ensures middle
      (fun given after => (Expr.evaluateAll (Machine.invoke bound) [index, value]).run start =
        (.ok [offset, given], after))
      (fun stop after =>
        Assigns bound (.element node name index) value start (.error stop) after) := by
    apply Run.Ensures.intro
    · exact fun given after ran =>
        Expr.evaluateAll_cons_ok offsetRan (Expr.evaluateAll_cons_ok ran rfl)
    · exact fun stop after ran => .failed (congrArg Prod.snd
        (Expr.evaluateAll_cons_rest offsetRan (Expr.evaluateAll_cons_error ran)))
  apply second.bind
  intro given evaluated _ evaluates
  have written : (Run.writeElement (evaluated.cell target.cell) offset given).Ensures evaluated
      (fun _ after => Assigns bound (.element node name index) value start (.ok .normal) after)
      (fun stop after =>
        Assigns bound (.element node name index) value start (.error stop) after) := by
    apply (Run.writeElement_ensures (evaluated.cell target.cell) offset given evaluated).mono
    · rintro _ after _ ⟨id, number, holds, rfl, notBefore, before, stores⟩
      exact .element rfl found isMutable evaluates holds notBefore before stores
    · rintro stop _ rfl
      exact .failed (congrArg Prod.snd evaluates)
  exact written

private theorem assign_assigns
    (stored : ∀ name target, start.scopes.lookup start.current name = some target →
      target.cell < start.cells.size) :
    (receiver.assign (Machine.invoke bound) value).Ensures start
      (fun _ after => Assigns bound receiver value start (.ok .normal) after)
      (fun stop after => Assigns bound receiver value start (.error stop) after) := by
  have looked : ∀ name, (∀ other, receiver.IsReceiverOf other → other = name) →
      (Expr.assign.mutableVariable name).Ensures start
        (fun target after => after = start ∧
          start.scopes.lookup start.current name = some target ∧ target.isMutable = true)
        (fun stop after => Assigns bound receiver value start (.error stop) after) := by
    intro name only
    apply (Expr.mutableVariable_ensures name start).mono
    · exact fun _ _ _ found => found
    · rintro stop _ ⟨rfl, unavailable⟩
      apply Assigns.refused
      intro other target receives found
      rw [only other receives] at found
      exact unavailable target found
  cases receiver with
  | access node name =>
      have found := looked name (by rintro other (⟨_, same⟩ | ⟨_, _, same⟩) <;> cases same; rfl)
      apply found.bind
      rintro target _ - ⟨same, known, isMutable⟩
      rw [same]
      exact plain_assigns node known isMutable (stored name target known)
  | element node name index =>
      have found := looked name (by rintro other (⟨_, same⟩ | ⟨_, _, same⟩) <;> cases same; rfl)
      apply found.bind
      rintro target _ - ⟨same, known, isMutable⟩
      rw [same]
      exact element_assigns node known isMutable
  | literal | group | binary | call | list =>
      apply Run.ensures_fault
      apply Assigns.refused
      rintro name target (⟨_, same⟩ | ⟨_, _, same⟩) _ <;> cases same

/-- An assignment writes to one place, after it has evaluated what it needs, or it writes
nothing. -/
theorem assigns_of_execute
    (stored : ∀ name target, start.scopes.lookup start.current name = some target →
      target.cell < start.cells.size) {result : Except Stop Flow} {after : Machine}
    (ran : ((Stmt.assignment receiver value).execute (Machine.invoke bound) bound).run start =
      (result, after)) : Assigns bound receiver value start result after := by
  have assigned : ((Stmt.assignment receiver value).execute (Machine.invoke bound) bound).Ensures
      start (fun flow after => Assigns bound receiver value start (.ok flow) after)
      (fun stop after => Assigns bound receiver value start (.error stop) after) :=
    (assign_assigns stored).bind fun _ _ _ assigns => Run.ensures_pure assigns
  cases result with
  | ok flow => exact assigned.value ran
  | error stop => exact assigned.stop ran

end Stmt

end Plc
