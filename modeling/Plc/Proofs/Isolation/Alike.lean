import Mathlib.Data.List.Forall2
import Plc.Proofs.Session.Rooted

/-! Machines that are alike. They share the outermost scope, the cells and the memory, and may
differ in the other scopes they had at first; a scope that was made since then has a counterpart
in the other machine. What is done in both machines keeps them alike. -/

namespace Plc

namespace Machine

/-! ## Counterparts -/

/-- Positions of the same scope in two machines: the outermost one, or the one that was made in
both at the same step, when they had the scopes before `leftBase` and before `rightBase`. -/
inductive Counterpart (leftBase rightBase : Nat) : Nat → Nat → Prop where
  | global : Counterpart leftBase rightBase Machine.global Machine.global
  | made (index : Nat) : Counterpart leftBase rightBase (leftBase + index) (rightBase + index)

/-- The machines have the same cells, the same memory and the same scopes, as far as scopes have
a counterpart. -/
structure Alike (leftBase rightBase : Nat) (left right : Machine) : Prop where
  leftPositive : 0 < leftBase
  rightPositive : 0 < rightBase
  places : ∃ made, left.scopes.places.size = leftBase + made ∧
    right.scopes.places.size = rightBase + made
  scopes : ∀ place other, Counterpart leftBase rightBase place other →
    left.scopes.scope place = right.scopes.scope other
  outer : ∀ place other, Counterpart leftBase rightBase place other →
    List.Forall₂ (Counterpart leftBase rightBase) (left.scopes.outer place)
      (right.scopes.outer other)
  cells : left.cells = right.cells
  memory : left.memory = right.memory
  functions : ∀ place name arity function,
    (left.scopes.scope place).lookupFunction name arity = some function → function.IsGlobal

variable {leftBase rightBase : Nat} {left right : Machine}

/-- Before the call, the outermost scope is the only one with a counterpart. -/
theorem Alike.of_rooted (leftRooted : left.Rooted) (rightRooted : right.Rooted)
    (scopes : left.globalScope = right.globalScope) (cells : left.cells = right.cells)
    (memory : left.memory = right.memory) :
    Alike left.scopes.places.size right.scopes.places.size left right where
  leftPositive := leftRooted.present
  rightPositive := rightRooted.present
  places := ⟨0, rfl, rfl⟩
  scopes place other counterpart := by
    cases counterpart with
    | global => exact scopes
    | made index =>
        rw [Scope.Tree.scope_of_le (Nat.le_add_right _ _),
          Scope.Tree.scope_of_le (Nat.le_add_right _ _)]
  outer place other counterpart := by
    cases counterpart with
    | global =>
        rw [leftRooted.root, rightRooted.root]
        exact .nil
    | made index =>
        rw [Scope.Tree.outer_of_le (Nat.le_add_right _ _),
          Scope.Tree.outer_of_le (Nat.le_add_right _ _)]
        exact .nil
  cells := cells
  memory := memory
  functions place name arity function known :=
    (leftRooted.functions place name arity function known).2

theorem Counterpart.eq_iff {place other position counter : Nat}
    (leftPositive : 0 < leftBase) (rightPositive : 0 < rightBase)
    (first : Counterpart leftBase rightBase place other)
    (second : Counterpart leftBase rightBase position counter) :
    place = position ↔ other = counter := by
  have root : Machine.global = 0 := rfl
  cases first <;> cases second <;> omega

theorem Counterpart.lt_iff {place other : Nat}
    (leftPositive : 0 < leftBase) (rightPositive : 0 < rightBase)
    (counterpart : Counterpart leftBase rightBase place other) (made : Nat) :
    place < leftBase + made ↔ other < rightBase + made := by
  have root : Machine.global = 0 := rfl
  cases counterpart <;> omega

private theorem findSome?_of_forall₂ {relates : α → β → Prop} {first : α → Option γ}
    {second : β → Option γ} {lefts : List α} {rights : List β}
    (both : List.Forall₂ relates lefts rights)
    (same : ∀ left right, relates left right → first left = second right) :
    lefts.findSome? first = rights.findSome? second := by
  induction both with
  | nil => rfl
  | cons related _ induction =>
      rw [List.findSome?_cons, List.findSome?_cons, same _ _ related, induction]

namespace Alike

variable {place other : Nat}

theorem path (alike : Alike leftBase rightBase left right)
    (counterpart : Counterpart leftBase rightBase place other) :
    List.Forall₂ (Counterpart leftBase rightBase) (left.scopes.path place)
      (right.scopes.path other) :=
  .cons counterpart (alike.outer place other counterpart)

theorem lookup_eq (alike : Alike leftBase rightBase left right)
    (counterpart : Counterpart leftBase rightBase place other) (name : String) :
    left.scopes.lookup place name = right.scopes.lookup other name := by
  apply findSome?_of_forall₂ (alike.path counterpart)
  intro position counter related
  rw [alike.scopes position counter related]

theorem lookupFunction_eq (alike : Alike leftBase rightBase left right)
    (counterpart : Counterpart leftBase rightBase place other) (name : String) (arity : Nat) :
    left.scopes.lookupFunction place name arity =
      right.scopes.lookupFunction other name arity := by
  apply findSome?_of_forall₂ (alike.path counterpart)
  intro position counter related
  rw [alike.scopes position counter related]

theorem cell_eq (alike : Alike leftBase rightBase left right) (number : Nat) :
    left.cell number = right.cell number := by
  rw [Machine.cell, Machine.cell, alike.cells]

/-! ## The same changes -/

theorem atScopes (alike : Alike leftBase rightBase left right) (leftCurrent rightCurrent : Nat) :
    Alike leftBase rightBase { left with current := leftCurrent }
      { right with current := rightCurrent } :=
  { alike with }

theorem withMemory (alike : Alike leftBase rightBase left right) (memory : Memory) :
    Alike leftBase rightBase { left with memory } { right with memory } :=
  { alike with memory := rfl }

theorem setCell (alike : Alike leftBase rightBase left right) (number : Nat) (value : Value) :
    Alike leftBase rightBase (left.setCell number value) (right.setCell number value) :=
  { alike with cells := by rw [Machine.setCell, Machine.setCell, alike.cells] }

theorem child (alike : Alike leftBase rightBase left right)
    (counterpart : Counterpart leftBase rightBase place other) :
    Alike leftBase rightBase (left.child place).2 (right.child other).2 ∧
      Counterpart leftBase rightBase (left.child place).1 (right.child other).1 := by
  rcases alike.places with ⟨made, leftSize, rightSize⟩
  have new : Counterpart leftBase rightBase left.scopes.places.size
      right.scopes.places.size := by
    rw [leftSize, rightSize]
    exact .made made
  refine ⟨{ alike with
    places := ⟨made + 1, ?_, ?_⟩
    scopes := ?_
    outer := ?_
    functions := ?_ }, new⟩
  · simp only [Machine.child, Scope.Tree.size_child, leftSize]
    omega
  · simp only [Machine.child, Scope.Tree.size_child, rightSize]
    omega
  · intro position counter related
    simpa [Machine.child] using alike.scopes position counter related
  · intro position counter related
    have isNew := Counterpart.eq_iff alike.leftPositive alike.rightPositive related new
    simp only [Machine.child, Scope.Tree.outer_child]
    by_cases first : position = left.scopes.places.size
    · rw [if_pos first, if_pos (isNew.mp first)]
      exact alike.path counterpart
    · rw [if_neg first, if_neg fun second => first (isNew.mpr second)]
      exact alike.outer position counter related
  · intro position name arity function known
    exact alike.functions position name arity function (by simpa [Machine.child] using known)

theorem defineVariable (alike : Alike leftBase rightBase left right)
    (counterpart : Counterpart leftBase rightBase place other) (name : String) (type : Ty)
    (isMutable : Bool) (value : Value) :
    (left.defineVariable place name type isMutable value).1 =
        (right.defineVariable other name type isMutable value).1 ∧
      Alike leftBase rightBase (left.defineVariable place name type isMutable value).2
        (right.defineVariable other name type isMutable value).2 := by
  have same := alike.scopes place other counterpart
  rcases left.defineVariable_cases place name type isMutable value with
    ⟨leftTaken, leftSame⟩ | ⟨leftFree, leftExtended, leftGrown, leftSame⟩
  · rcases right.defineVariable_cases other name type isMutable value with
      ⟨_, rightSame⟩ | ⟨rightFree, _⟩
    · rw [leftSame, rightSame]
      exact ⟨rfl, alike⟩
    · rw [same, rightFree] at leftTaken
      cases leftTaken
  · rcases right.defineVariable_cases other name type isMutable value with
      ⟨rightTaken, _⟩ | ⟨_, rightExtended, rightGrown, rightSame⟩
    · rw [← same, leftFree] at rightTaken
      cases rightTaken
    · rw [same, alike.cells, rightGrown] at leftGrown
      cases leftGrown
      have leftPlaces := left.outer_defineVariable place name type isMutable value
      have rightPlaces := right.outer_defineVariable other name type isMutable value
      have functions := left.lookupFunction_defineVariable place
      rw [leftSame] at leftPlaces ⊢
      rw [rightSame] at rightPlaces ⊢
      refine ⟨rfl, { alike with
        places := ?_
        scopes := ?_
        outer := ?_
        cells := ?_
        functions := ?_ }⟩
      · rw [leftPlaces.1, rightPlaces.1]
        exact alike.places
      · intro position counter related
        rcases alike.places with ⟨made, leftSize, rightSize⟩
        have isPlace := related.eq_iff alike.leftPositive alike.rightPositive counterpart
        have isPresent := counterpart.lt_iff alike.leftPositive alike.rightPositive made
        rw [← leftSize, ← rightSize] at isPresent
        simp only [Scope.Tree.scope_setScope, isPlace, isPresent,
          alike.scopes position counter related]
      · intro position counter related
        rw [leftPlaces.2, rightPlaces.2]
        exact alike.outer position counter related
      · dsimp only
        rw [alike.cells]
      · intro position wanted arity function known
        have kept := functions position arity name wanted type isMutable value
        rw [leftSame] at kept
        rw [kept] at known
        exact alike.functions position wanted arity function known

end Alike

end Machine

end Plc
