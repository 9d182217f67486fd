import Mathlib.Data.Fintype.Card
import Mathlib.Data.Fintype.EquivFin
import Mathlib.Logic.Relation
import Mathlib.Order.WellFounded
import Plc.Proofs.Decimal.Power

/-! What a value is once its lists are written out. Where no list contains itself every value is
such a tree, however its lists are shared, and the tree is no higher than there are lists. -/

namespace Plc

/-! ## Trees -/

/-- A value without references: lists have elements of their own, decimals are the numbers they
are worth. -/
inductive Tree where
  | nil
  | boolean (value : Bool)
  | integer (value : Int)
  | decimal (worth : ℚ)
  | character (value : Char)
  | string (value : String)
  | list (elements : List Tree)

mutual

def Tree.height : Tree → Nat
  | .list elements => Tree.heightAll elements + 1
  | _ => 0

def Tree.heightAll : List Tree → Nat
  | [] => 0
  | head :: tail => max head.height (Tree.heightAll tail)

end

mutual

/-- With the lists there are, the value written out is the tree. -/
inductive Value.Unfolds (lists : Lists) : Value → Tree → Prop
  | nil : Unfolds lists .nil .nil
  | boolean (value : Bool) : Unfolds lists (.boolean value) (.boolean value)
  | integer (value : Int) : Unfolds lists (.integer value) (.integer value)
  | decimal (value : Decimal) : Unfolds lists (.decimal value) (.decimal value.toRat)
  | character (value : Char) : Unfolds lists (.character value) (.character value)
  | string (value : String) : Unfolds lists (.string value) (.string value)
  | list {id : Nat} {trees : List Tree} (present : id < lists.size)
      (elements : UnfoldsAll lists (lists.elements id) trees) :
      Unfolds lists (.list id) (.list trees)

inductive Value.UnfoldsAll (lists : Lists) : List Value → List Tree → Prop
  | nil : UnfoldsAll lists [] []
  | cons {head : Value} {tree : Tree} {tail : List Value} {trees : List Tree}
      (first : Unfolds lists head tree) (rest : UnfoldsAll lists tail trees) :
      UnfoldsAll lists (head :: tail) (tree :: trees)

end

namespace Value

variable {lists : Lists}

mutual

/-- A value can be written out in one way only. -/
theorem Unfolds.unique {value : Value} {tree other : Tree} :
    Unfolds lists value tree → Unfolds lists value other → tree = other
  | .nil, .nil => rfl
  | .boolean _, .boolean _ => rfl
  | .integer _, .integer _ => rfl
  | .decimal _, .decimal _ => rfl
  | .character _, .character _ => rfl
  | .string _, .string _ => rfl
  | .list _ elements, .list _ others => congrArg Tree.list (elements.unique others)

theorem UnfoldsAll.unique {values : List Value} {trees others : List Tree} :
    UnfoldsAll lists values trees → UnfoldsAll lists values others → trees = others
  | .nil, .nil => rfl
  | .cons first rest, .cons other remaining =>
      congrArg₂ List.cons (first.unique other) (rest.unique remaining)

end

theorem UnfoldsAll.length_eq {values : List Value} {trees : List Tree}
    (unfolds : UnfoldsAll lists values trees) : values.length = trees.length := by
  induction values generalizing trees with
  | nil =>
      cases unfolds
      rfl
  | cons head tail induction =>
      cases unfolds with
      | cons first rest => simp [induction rest]

theorem exists_unfoldsAll {values : List Value}
    (each : ∀ value ∈ values, ∃ tree, Unfolds lists value tree) :
    ∃ trees, UnfoldsAll lists values trees := by
  induction values with
  | nil => exact ⟨[], .nil⟩
  | cons head tail induction =>
      rcases each head (by simp) with ⟨tree, first⟩
      rcases induction fun value member => each value (by simp [member]) with ⟨trees, rest⟩
      exact ⟨tree :: trees, .cons first rest⟩

/-! ## Height -/

/-- A tree is as high as the lists that it was written out from are deep: there is a list for
each height up to its own. -/
def HasLevels (lists : Lists) (height : Nat) : Prop :=
  ∀ level, 0 < level → level ≤ height →
    ∃ id tree, id < lists.size ∧ Unfolds lists (.list id) tree ∧ tree.height = level

mutual

theorem Unfolds.hasLevels {value : Value} {tree : Tree} :
    Unfolds lists value tree → HasLevels lists tree.height
  | .list present elements => by
      intro level positive within
      rw [Tree.height] at within
      rcases Nat.lt_or_eq_of_le within with lower | same
      · exact elements.hasLevels level positive (by omega)
      · exact ⟨_, _, present, .list present elements, by rw [Tree.height, same]⟩
  | .nil | .boolean _ | .integer _ | .decimal _ | .character _ | .string _ => by
      intro level positive within
      simp only [Tree.height] at within
      omega

theorem UnfoldsAll.hasLevels {values : List Value} {trees : List Tree} :
    UnfoldsAll lists values trees → HasLevels lists (Tree.heightAll trees)
  | .nil => by
      intro level positive within
      rw [Tree.heightAll] at within
      omega
  | .cons first rest => by
      intro level positive within
      rw [Tree.heightAll] at within
      rcases le_max_iff.mp within with inFirst | inRest
      · exact first.hasLevels level positive inFirst
      · exact rest.hasLevels level positive inRest

end

/-- The lists of different heights are different lists, so there are enough of them. -/
theorem HasLevels.le_size {height : Nat} (hasLevels : HasLevels lists height) :
    height ≤ lists.size := by
  have levels (level : Fin height) := hasLevels (level + 1) (by omega) (by omega)
  choose place tree present unfolds reaches using levels
  let located (level : Fin height) : Fin lists.size := ⟨place level, present level⟩
  have injective : Function.Injective located := by
    intro level other same
    have same : place level = place other := congrArg Fin.val same
    have unfolded := unfolds level
    rw [same] at unfolded
    have alike := reaches level
    rw [unfolded.unique (unfolds other), reaches other] at alike
    omega
  simpa using Fintype.card_le_of_injective located injective

theorem Unfolds.height_le {value : Value} {tree : Tree} (unfolds : Unfolds lists value tree) :
    tree.height ≤ lists.size * lists.size :=
  Nat.le_trans unfolds.hasLevels.le_size (Nat.le_mul_self _)

end Value

/-! ## Lists that contain no list that contains them -/

namespace Lists

def Holds (lists : Lists) (outer inner : Nat) : Prop :=
  .list inner ∈ lists.elements outer

/-- All lists that are held exist, and none is inside itself, directly or indirectly. -/
structure Grounded (lists : Lists) : Prop where
  present : ∀ {outer inner : Nat}, lists.Holds outer inner → inner < lists.size
  acyclic : ∀ id, ¬Relation.TransGen lists.Holds id id

variable {lists : Lists}

/-- Lists that only hold lists from before them are not inside themselves. -/
theorem grounded_of_earlier
    (earlier : ∀ outer < lists.size, ∀ inner, lists.Holds outer inner → inner < outer) :
    lists.Grounded := by
  have exists_outer {outer inner : Nat} (holds : lists.Holds outer inner) :
      outer < lists.size := by
    by_contra absent
    have empty : lists.elements outer = [] := by
      rw [elements, Array.getElem?_eq_none (by omega)]
    rw [Holds, empty] at holds
    cases holds
  have smaller {outer inner : Nat} (inside : Relation.TransGen lists.Holds outer inner) :
      inner < outer := by
    induction inside with
    | single holds => exact earlier _ (exists_outer holds) _ holds
    | tail _ holds induction =>
        exact Nat.lt_trans (earlier _ (exists_outer holds) _ holds) induction
  constructor
  · intro outer inner holds
    exact Nat.lt_trans (earlier _ (exists_outer holds) _ holds) (exists_outer holds)
  · exact fun id inside => Nat.lt_irrefl id (smaller inside)

theorem Grounded.wellFounded (grounded : lists.Grounded) :
    WellFounded fun inner outer : Fin lists.size => Relation.TransGen lists.Holds outer inner := by
  let inside (inner outer : Fin lists.size) := Relation.TransGen lists.Holds outer inner
  have trans : IsTrans (Fin lists.size) inside := ⟨fun _ _ _ first second => second.trans first⟩
  have irrefl : Std.Irrefl inside := ⟨fun id => grounded.acyclic id⟩
  exact Finite.wellFounded_of_trans_of_irrefl inside

end Lists

namespace Value

variable {lists : Lists}

def IsIn (lists : Lists) (value : Value) : Prop :=
  ∀ id, value = .list id → id < lists.size

theorem exists_unfolds_of_list {value : Value}
    (unfolds : ∀ id, value = .list id → ∃ tree, Unfolds lists (.list id) tree) :
    ∃ tree, Unfolds lists value tree := by
  cases value with
  | nil => exact ⟨_, .nil⟩
  | boolean value => exact ⟨_, .boolean value⟩
  | integer value => exact ⟨_, .integer value⟩
  | decimal value => exact ⟨_, .decimal value⟩
  | character value => exact ⟨_, .character value⟩
  | string value => exact ⟨_, .string value⟩
  | list id => exact unfolds id rfl

/-- Where no list is inside itself, every list can be written out, after the lists inside of
it. -/
theorem exists_unfolds_list (grounded : lists.Grounded) (place : Fin lists.size) :
    ∃ tree, Unfolds lists (.list place) tree := by
  induction place using grounded.wellFounded.induction with
  | _ outer induction =>
      have each : ∀ element ∈ lists.elements outer, ∃ tree, Unfolds lists element tree := by
        intro element member
        apply exists_unfolds_of_list
        rintro inner rfl
        exact induction ⟨inner, grounded.present member⟩ (.single member)
      rcases exists_unfoldsAll each with ⟨trees, unfolds⟩
      exact ⟨_, .list outer.isLt unfolds⟩

theorem exists_unfolds (grounded : lists.Grounded) {value : Value} (present : value.IsIn lists) :
    ∃ tree, Unfolds lists value tree :=
  exists_unfolds_of_list fun id isList => exists_unfolds_list grounded ⟨id, present id isList⟩

end Value

end Plc
