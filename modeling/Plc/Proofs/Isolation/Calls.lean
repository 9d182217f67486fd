import Plc.Proofs.Isolation.Confinement
import Plc.Proofs.Isolation.Mirror

/-! Calls are isolated from the scopes they are made from: neither does such a scope have any
influence on the call, nor the call on the variables in it. -/

namespace Plc

/-- Two machines with the same outermost scope, the same cells and the same memory execute
something in different scopes. A function that they know by a name is the same for both; called
with the same arguments, it gives the same result in both and leaves the same cells, the same
lists and output and the same outermost scope. During the call, cells that were there before
keep their values unless they belong to the outermost scope, and whatever is assigned to is a
variable of that scope or of one that the call has made. -/
theorem Machine.call_isolated (left right : Machine) (leftRooted : left.Rooted)
    (rightRooted : right.Rooted) (scopes : left.globalScope = right.globalScope)
    (cells : left.cells = right.cells) (memory : left.memory = right.memory) (name : String)
    (arguments : List Value) (function : Machine.Function)
    (known : left.globalScope.lookupFunction name arguments.length = some function)
    (bound : Nat) :
    (left.scopes.lookupFunction left.current name arguments.length = some function ∧
      right.scopes.lookupFunction right.current name arguments.length = some function) ∧
    (let leftRun := (Machine.invoke bound function arguments).run left
      let rightRun := (Machine.invoke bound function arguments).run right
      leftRun.1 = rightRun.1 ∧ leftRun.2.cells = rightRun.2.cells ∧
        leftRun.2.memory = rightRun.2.memory ∧
        leftRun.2.globalScope = rightRun.2.globalScope) ∧
    (∀ machine ∈ Moment.timeline ⟨bound, .invoke function arguments, left⟩,
      ∀ cell, ¬left.MayWrite cell → machine.cell cell = left.cell cell) ∧
    ∀ inner, Moment.Includes ⟨bound, .invoke function arguments, left⟩ inner →
      ∀ node other value target,
        inner.activity = .execute (.assignment (.access node other) value) →
        inner.machine.scopes.lookup inner.machine.current other = some target →
        ∃ place, left.WithinReach place ∧
          (inner.machine.scopes.scope place).lookup other = some target := by
  have isGlobal := (leftRooted.functions _ _ _ _ known).2
  have alike := Alike.of_rooted leftRooted rightRooted scopes cells memory
  have agree := Machine.invoke_agree bound isGlobal arguments alike
  have obeys := Confined.of_invoke leftRooted isGlobal bound arguments
  refine ⟨⟨?_, ?_⟩, ⟨agree.result, agree.alike.cells, agree.alike.memory, ?_⟩, ?_, ?_⟩
  · rw [leftRooted.lookupFunction_eq leftRooted.current]
    exact known
  · rw [rightRooted.lookupFunction_eq rightRooted.current, ← scopes]
    exact known
  · exact agree.alike.scopes _ _ .global
  · intro machine member
    exact obeys.course.starts machine member
  · intro inner includes node other value target executes found
    have reach := obeys.inner inner includes
    have confined := obeys.course.kept inner.machine
      (includes.timeline_infix.subset inner.machine_mem_timeline)
    exact confined.exists_of_lookup (reach.located (by rw [executes]; rfl)) found

/-- A function that assigns to its parameter `n` is called from a scope that has an `n` of its
own, and from one that has none. -/
theorem Machine.call_isolated_of_shadowing :
    let setter : Procedure := ⟨0, "set", [⟨"n", none⟩], none,
      [.assignment (.access ⟨1, 17⟩ "n") (.literal ⟨2, 21⟩ (.integer 3)),
        .returns (.access ⟨3, 31⟩ "n")]⟩
    let base := ((Machine.standard (.empty none)).defineFunction Machine.global
      setter.function).2
    let inBlock (name : String) : Machine :=
      (Machine.defineVariable { (base.child base.current).2 with
        current := (base.child base.current).1 } 1 name .any true (.integer 9)).2
    (inBlock "m").Rooted ∧ (inBlock "n").Rooted ∧
    (inBlock "n").globalScope.lookupFunction "set" 1 = some setter.function ∧
    ((Machine.invoke 5 setter.function [.integer 7]).run (inBlock "m")).1 = .ok (.integer 3) ∧
    ((Machine.invoke 5 setter.function [.integer 7]).run (inBlock "n")).1 = .ok (.integer 3) ∧
    ∀ machine ∈ Moment.timeline ⟨5, .invoke setter.function [.integer 7], inBlock "n"⟩,
      machine.cell 0 = .integer 9 := by
  intro setter base inBlock
  have based : base.Rooted :=
    (Machine.standard_rooted (.empty none)).defineFunction setter.function_isGlobal
  have rooted : ∀ name, (inBlock name).Rooted := by
    intro name
    have enter : Moment.Change ⟨5, .executeAll [], base⟩ base _ := .enter rfl
    have entered := based.change based.current (by intro _ _ invokes; cases invokes) enter
    have define : Moment.Change ⟨5, .define (.plain none none) 1 name true (.integer 9),
        { (base.child base.current).2 with current := (base.child base.current).1 }⟩
        { (base.child base.current).2 with current := (base.child base.current).1 } _ :=
      .define rfl
    exact entered.change entered.current (by intro _ _ invokes; cases invokes) define
  have scopes : (inBlock "n").globalScope = (inBlock "m").globalScope := by
    have left : (inBlock "n").globalScope = base.globalScope := rfl
    have right : (inBlock "m").globalScope = base.globalScope := rfl
    exact left.trans right.symm
  have cells : (inBlock "n").cells = (inBlock "m").cells := by
    have left : (inBlock "n").cells = #[.integer 9] := rfl
    have right : (inBlock "m").cells = #[.integer 9] := rfl
    exact left.trans right.symm
  have known : (inBlock "n").globalScope.lookupFunction "set" 1 = some setter.function := rfl
  have isolated := Machine.call_isolated (inBlock "n") (inBlock "m") (rooted "n") (rooted "m")
    scopes cells rfl "set" [.integer 7] setter.function known 5
  have returned : ((Machine.invoke 5 setter.function [.integer 7]).run (inBlock "m")).1 =
      .ok (.integer 3) := by decide +kernel
  have same := isolated.2.1.1
  rw [returned] at same
  refine ⟨rooted "m", rooted "n", known, returned, same, ?_⟩
  intro machine member
  apply isolated.2.2.1 machine member 0
  rintro (new | ⟨name, found, bound, _⟩)
  · exact Nat.not_succ_le_zero 0 new
  · cases bound

end Plc
