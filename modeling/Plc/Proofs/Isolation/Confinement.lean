import Plc.Proofs.Session.Rooted

/-! What a call can reach. A body runs in a scope inside the outermost one, whatever the scope
it is called from; so the variables that it and all that it calls can assign to are those of
the outermost scope and those of scopes that are made in the meantime. -/

namespace Plc

namespace Machine

/-- The scope is the outermost one, or it is not there yet at the start. -/
def WithinReach (start : Machine) (position : Nat) : Prop :=
  position = global ∨ start.scopes.places.size ≤ position

/-- The cell is that of a variable in the outermost scope, or it is not there yet at the
start. -/
def MayWrite (start : Machine) (cell : Nat) : Prop :=
  start.cells.size ≤ cell ∨
    ∃ name found, start.globalScope.lookup name = some found ∧ found.cell = cell

/-- From the scopes within reach, no others are reached. -/
structure Confined (start machine : Machine) : Prop where
  places : start.scopes.places.size ≤ machine.scopes.places.size
  cells : start.cells.size ≤ machine.cells.size
  outer : ∀ position, start.WithinReach position →
    ∀ place ∈ machine.scopes.outer position, start.WithinReach place
  bindings : ∀ position name found, start.WithinReach position →
    (machine.scopes.scope position).lookup name = some found → start.MayWrite found.cell
  functions : ∀ position name arity function,
    (machine.scopes.scope position).lookupFunction name arity = some function →
      function.IsGlobal

/-- The moment looks names up within reach, and what it calls was declared in the outermost
scope. -/
structure ReachOf (start : Machine) (moment : Moment) : Prop where
  located : moment.activity.usesScope = true → start.WithinReach moment.machine.current
  callee : ∀ function arguments, moment.activity = .invoke function arguments →
    function.IsGlobal

/-- What may not be written is the same. -/
def Spares (start earlier later : Machine) : Prop :=
  ∀ cell, ¬start.MayWrite cell → later.cell cell = earlier.cell cell

theorem Rooted.confined {start : Machine} (rooted : start.Rooted) : start.Confined start where
  places := Nat.le_refl _
  cells := Nat.le_refl _
  outer position within place member := by
    rcases within with rfl | new
    · rw [rooted.root] at member
      cases member
    · rw [Scope.Tree.outer_of_le new] at member
      cases member
  bindings position name found within known := by
    rcases within with rfl | new
    · exact .inr ⟨name, found, known, rfl⟩
    · exact absurd (Scope.Tree.lt_size_of_lookup known) (Nat.not_lt_of_le new)
  functions position name arity function known :=
    (rooted.functions position name arity function known).2

namespace Confined

variable {start machine before after : Machine} {moment : Moment}

theorem exists_of_lookup (confined : start.Confined machine) {position : Nat}
    (within : start.WithinReach position) {name : String} {target : Variable}
    (found : machine.scopes.lookup position name = some target) :
    ∃ place, start.WithinReach place ∧
      (machine.scopes.scope place).lookup name = some target := by
  rcases Scope.Tree.exists_of_lookup found with ⟨place, member, known⟩
  rcases List.mem_cons.mp member with rfl | member
  · exact ⟨place, within, known⟩
  · exact ⟨place, confined.outer position within place member, known⟩

theorem change (confined : start.Confined before) (reach : start.ReachOf moment)
    (change : moment.Change before after) : start.Confined after where
  places := Nat.le_trans confined.places change.places_le
  cells := Nat.le_trans confined.cells change.cells_le
  outer position within place member := by
    rcases change.scopes with ⟨_, same⟩ | ⟨parent, made, inside⟩
    · rw [same] at member
      exact confined.outer position within place member
    · have parentWithin : start.WithinReach parent := by
        rcases inside with ⟨uses, rfl⟩ | ⟨function, arguments, parameters, body, invokes, callable⟩
        · exact reach.located uses
        · exact .inl (reach.callee function arguments invokes parameters body parent callable)
      rw [made, Scope.Tree.outer_child] at member
      split at member
      · rcases List.mem_cons.mp member with rfl | member
        · exact parentWithin
        · exact confined.outer parent parentWithin place member
      · exact confined.outer position within place member
  bindings position name found within known := by
    rcases change.bindings with ⟨place, defined, isMutable, value, rfl⟩ | ⟨_, same⟩
    · rcases lookup_defineVariable known with old | ⟨_, _, rfl, _⟩
      · exact confined.bindings position name found within old
      · exact .inl confined.cells
    · rw [same] at known
      exact confined.bindings position name found within known
  functions position name arity function known := by
    rcases change.functions with ⟨_, procedure, _, _, rfl⟩ | same
    · rcases lookupFunction_defineFunction known with old | ⟨_, rfl⟩
      · exact confined.functions position name arity function old
      · exact procedure.function_isGlobal
    · rw [same] at known
      exact confined.functions position name arity function known

theorem spares (begun : start.Confined moment.machine) (confined : start.Confined before)
    (reach : start.ReachOf moment) (change : moment.Change before after) :
    start.Spares before after := by
  intro cell protect
  rcases change.contents with ⟨name, target, value, uses, found, _, rfl⟩ | same
  · apply cell_setCell_of_ne
    rintro rfl
    rcases begun.exists_of_lookup (reach.located uses) found with ⟨place, within, known⟩
    exact protect (begun.bindings place name target within known)
  · apply same
    have old : cell < start.cells.size := Nat.lt_of_not_le fun new => protect (.inl new)
    exact Nat.lt_of_lt_of_le old confined.cells

theorem rules (start : Machine) :
    Moment.Rules start.Confined start.ReachOf start.Spares where
  refl _ _ _ := rfl
  trans first second cell protect := (second cell protect).trans (first cell protect)
  begins := by
    intro whole part reach begun _ begins _ confined
    constructor
    · intro uses
      rcases begins.located uses with ⟨wholeUses, same⟩ | new
      · rw [same]
        exact reach.located wholeUses
      · exact .inr (Nat.le_trans begun.places new)
    · intro function arguments invokes
      rcases begins.found function arguments invokes with ⟨position, name, _, found⟩
      rcases Scope.Tree.exists_of_lookupFunction found with ⟨place, _, known⟩
      exact confined.functions place name _ function known
  change reach begun _ confined change :=
    ⟨confined.change reach change, begun.spares confined reach change⟩

theorem of_invoke (rooted : start.Rooted) {function : Machine.Function}
    (isGlobal : function.IsGlobal) (bound : Nat) (arguments : List Value) :
    Moment.Obeys start.Confined start.ReachOf start.Spares
      ⟨bound, .invoke function arguments, start⟩ := by
  apply (rules start).obeys
  · refine ⟨nofun, ?_⟩
    intro other given invokes
    cases invokes
    exact isGlobal
  · exact rooted.confined

end Confined

end Machine

end Plc
