import Plc.Proofs.Machine.Scopes
import Plc.Proofs.Session.Turns

/-! Scopes are rooted: every chain of scopes ends in the outermost one, which alone has
functions. So a function is found by its name from everywhere in the same way. -/

namespace Plc

/-- If the function has a body, it was declared in the outermost scope. -/
def Machine.Function.IsGlobal (function : Machine.Function) : Prop :=
  ∀ parameters body closure, function.callable = .declared parameters body closure →
    closure = Machine.global

theorem Procedure.function_isGlobal (procedure : Procedure) : procedure.function.IsGlobal := by
  intro parameters body closure callable
  cases callable
  rfl

namespace Machine

/-- All scopes are inside the outermost one, and that one has all the functions. -/
structure Rooted (machine : Machine) : Prop where
  present : global < machine.scopes.places.size
  root : machine.scopes.outer global = []
  current : machine.current < machine.scopes.places.size
  chains : ∀ position < machine.scopes.places.size, global ∈ machine.scopes.path position
  functions : ∀ position name arity function,
    (machine.scopes.scope position).lookupFunction name arity = some function →
      position = global ∧ function.IsGlobal

namespace Rooted

variable {machine before after : Machine}

theorem lookupFunction_eq (rooted : machine.Rooted) {position : Nat}
    (present : position < machine.scopes.places.size) (name : String) (arity : Nat) :
    machine.scopes.lookupFunction position name arity =
      machine.globalScope.lookupFunction name arity := by
  cases found : machine.scopes.lookupFunction position name arity with
  | none =>
      have nowhere := List.findSome?_eq_none_iff.mp found
      exact (nowhere global (rooted.chains position present)).symm
  | some function =>
      rcases Scope.Tree.exists_of_lookupFunction found with ⟨place, _, known⟩
      rcases rooted.functions place name arity function known with ⟨rfl, _⟩
      exact known.symm

theorem isGlobal (rooted : machine.Rooted) {position arity : Nat} {name : String}
    {function : Machine.Function}
    (found : machine.scopes.lookupFunction position name arity = some function) :
    function.IsGlobal := by
  rcases Scope.Tree.exists_of_lookupFunction found with ⟨place, _, known⟩
  exact (rooted.functions place name arity function known).2

theorem functions_defineFunction (rooted : machine.Rooted) {function : Machine.Function}
    (isGlobal : function.IsGlobal) {position arity : Nat} {name : String}
    {found : Machine.Function}
    (known : ((machine.defineFunction global function).2.scopes.scope position).lookupFunction
      name arity = some found) : position = global ∧ found.IsGlobal := by
  rcases lookupFunction_defineFunction known with old | ⟨rfl, rfl⟩
  · exact rooted.functions position name arity found old
  · exact ⟨rfl, isGlobal⟩

theorem defineFunction (rooted : machine.Rooted) {function : Machine.Function}
    (isGlobal : function.IsGlobal) : (machine.defineFunction global function).2.Rooted := by
  have places := machine.outer_defineFunction global function
  have same : ∀ position, (machine.defineFunction global function).2.scopes.path position =
      machine.scopes.path position := by
    intro position
    rw [Scope.Tree.path, Scope.Tree.path, places.2]
  constructor
  · rw [places.1]
    exact rooted.present
  · rw [places.2]
    exact rooted.root
  · rw [places.1]
    exact rooted.current
  · intro position present
    rw [places.1] at present
    rw [same]
    exact rooted.chains position present
  · intro position name arity found known
    exact rooted.functions_defineFunction isGlobal known

theorem change {moment : Moment} (rooted : before.Rooted)
    (started : moment.machine.current < before.scopes.places.size)
    (callee : ∀ function arguments, moment.activity = .invoke function arguments →
      function.IsGlobal)
    (change : moment.Change before after) : after.Rooted := by
  have grows := change.places_le
  constructor
  · exact Nat.lt_of_lt_of_le rooted.present grows
  · rw [change.outer_eq rooted.present]
    exact rooted.root
  · rcases change.current_cases with same | back | present
    · rw [same]
      exact Nat.lt_of_lt_of_le rooted.current grows
    · rw [back]
      exact Nat.lt_of_lt_of_le started grows
    · exact present
  · intro position present
    by_cases old : position < before.scopes.places.size
    · rw [Scope.Tree.path, change.outer_eq old]
      exact rooted.chains position old
    · rcases change.scopes with ⟨same, _⟩ | ⟨parent, made, inside⟩
      · exact absurd (same ▸ present) old
      · -- the new scope is inside one that exists
        have parentPresent : parent < before.scopes.places.size := by
          rcases inside with ⟨_, rfl⟩ | ⟨function, arguments, parameters, body, invokes, callable⟩
          · exact started
          · rw [callee function arguments invokes parameters body parent callable]
            exact rooted.present
        rw [made, Scope.Tree.size_child] at present
        have new : position = before.scopes.places.size := by omega
        rw [made, new, Scope.Tree.path_child]
        exact List.mem_cons_of_mem _ (rooted.chains parent parentPresent)
  · intro position name arity found known
    rcases change.functions with ⟨_, procedure, _, _, rfl⟩ | same
    · exact rooted.functions_defineFunction procedure.function_isGlobal known
    · rw [same] at known
      exact rooted.functions position name arity found known

theorem session_rules : Turn.Rules Rooted
    (fun moment => ∀ function arguments, moment.activity = .invoke function arguments →
      function.IsGlobal)
    (fun earlier later => earlier.scopes.places.size ≤ later.scopes.places.size) where
  refl _ := Nat.le_refl _
  trans := Nat.le_trans
  begins _ _ _ begins _ rooted function arguments invokes := by
    rcases begins.found function arguments invokes with ⟨position, name, _, found⟩
    exact rooted.isGlobal found
  change callee start since rooted change :=
    ⟨rooted.change (Nat.lt_of_lt_of_le start.current since) callee change, change.places_le⟩
  prepare machine memory rooted :=
    ⟨⟨rooted.present, rooted.root, rooted.current, rooted.chains, rooted.functions⟩,
      Nat.le_refl _⟩
  native machine name arity behaviour rooted :=
    ⟨rooted.defineFunction nofun, Nat.le_of_eq (machine.outer_defineFunction _ _).1.symm⟩
  run _ _ _ _ _ _ invokes := by cases invokes
  call bound name arguments function machine rooted found other given invokes := by
    cases invokes
    exact rooted.isGlobal found

end Rooted

theorem standard_rooted (output : Output) : (standard output).Rooted := by
  have bare : (empty output).Rooted := by
    refine ⟨Nat.zero_lt_one, rfl, Nat.zero_lt_one, ?_, ?_⟩
    · intro position present
      cases Nat.lt_one_iff.mp present
      exact List.mem_cons_self
    · intro position name arity function known
      cases position <;> cases known
  exact bare.defineFunction nofun

/-- Every machine that a session goes through is rooted. -/
theorem session_rooted (output : Output) (turns : List Turn) {machine : Machine}
    (member : machine ∈ (standard output).timeline turns) : machine.Rooted :=
  (Rooted.session_rules.session_course turns (standard_rooted output)).kept machine member

end Machine

end Plc
