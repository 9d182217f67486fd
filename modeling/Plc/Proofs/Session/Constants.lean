import Plc.Proofs.Machine.Scopes
import Plc.Proofs.Session.Turns

/-! Constants. A variable that may not change keeps its value through a whole session: no two
variables share a cell, and an assignment looks at the variable it found before it does
anything else. -/

namespace Plc

namespace Machine

/-! ## Variables and their cells -/

/-- Every variable has a cell, and no two variables share one. -/
structure Separate (machine : Machine) : Prop where
  stored : ∀ place name found, (machine.scopes.scope place).lookup name = some found →
    found.cell < machine.cells.size
  apart : ∀ {place otherPlace name otherName left right},
    (machine.scopes.scope place).lookup name = some left →
    (machine.scopes.scope otherPlace).lookup otherName = some right →
    left.cell = right.cell → place = otherPlace ∧ name = otherName

/-- What `earlier` has, `later` has as well; its constants have their values. -/
structure Evolves (earlier later : Machine) : Prop where
  places : earlier.scopes.places.size ≤ later.scopes.places.size
  bindings : ∀ place name found, (earlier.scopes.scope place).lookup name = some found →
    (later.scopes.scope place).lookup name = some found
  constants : ∀ place name found, (earlier.scopes.scope place).lookup name = some found →
    found.isMutable = false → later.cell found.cell = earlier.cell found.cell

variable {machine before after : Machine}

theorem Evolves.refl (machine : Machine) : Evolves machine machine :=
  ⟨Nat.le_refl _, fun _ _ _ => id, fun _ _ _ _ _ => rfl⟩

theorem Evolves.trans {first second third : Machine} (start : Evolves first second)
    (rest : Evolves second third) : Evolves first third where
  places := Nat.le_trans start.places rest.places
  bindings place name found known :=
    rest.bindings place name found (start.bindings place name found known)
  constants place name found known constant := by
    rw [rest.constants place name found (start.bindings place name found known) constant]
    exact start.constants place name found known constant

namespace Separate

theorem of_lookup_eq (separate : before.Separate)
    (cells : after.cells.size = before.cells.size)
    (same : ∀ place name, (after.scopes.scope place).lookup name =
      (before.scopes.scope place).lookup name) : after.Separate where
  stored place name found known := by
    rw [same] at known
    rw [cells]
    exact separate.stored place name found known
  apart left right := by
    rw [same] at left right
    exact separate.apart left right

theorem defineVariable (separate : machine.Separate) (position : Nat) (name : String) (type : Ty)
    (isMutable : Bool) (value : Value) :
    (machine.defineVariable position name type isMutable value).2.Separate := by
  have grows := (Framed.defineVariable machine position name type isMutable value).cells
  constructor
  · intro place other found known
    rcases lookup_defineVariable known with old | ⟨_, _, rfl, size⟩
    · exact Nat.lt_of_lt_of_le (separate.stored place other found old) grows
    · rw [size]
      exact Nat.lt_succ_self _
  · intro place otherPlace first second left right leftKnown rightKnown same
    rcases lookup_defineVariable leftKnown with leftOld | ⟨rfl, rfl, rfl, _⟩
    · rcases lookup_defineVariable rightKnown with rightOld | ⟨rfl, rfl, rfl, _⟩
      · exact separate.apart leftOld rightOld same
      · have stored := separate.stored place first left leftOld
        simp only at same
        omega
    · rcases lookup_defineVariable rightKnown with rightOld | ⟨rfl, rfl, rfl, _⟩
      · have stored := separate.stored otherPlace second right rightOld
        simp only at same
        omega
      · exact ⟨rfl, rfl⟩

theorem change {moment : Moment} (separate : before.Separate)
    (change : moment.Change before after) : after.Separate := by
  rcases change.bindings with ⟨position, name, isMutable, value, rfl⟩ | ⟨cells, same⟩
  · exact separate.defineVariable position name .any isMutable value
  · exact separate.of_lookup_eq cells same

end Separate

/-- An assignment does not reach a constant: the variable it found would have to be one that
shares its cell. -/
theorem Evolves.change {moment : Moment} (separate : before.Separate)
    (since : Evolves moment.machine before) (change : moment.Change before after) :
    Evolves before after where
  places := change.places_le
  bindings _ _ _ known := change.variable_persists known
  constants place name found known constant := by
    rcases change.contents with ⟨other, target, value, _, looked, isMutable, rfl⟩ | same
    · rcases Scope.Tree.exists_of_lookup looked with ⟨position, _, bound⟩
      have stillBound := since.bindings position other target bound
      apply cell_setCell_of_ne
      intro shared
      rcases separate.apart known stillBound shared with ⟨rfl, rfl⟩
      rw [known] at stillBound
      cases stillBound
      rw [constant] at isMutable
      cases isMutable
    · exact same found.cell (separate.stored place name found known)

/-- What is known of every machine of a session. -/
def Sound (machine : Machine) : Prop :=
  machine.Separate ∧ global < machine.scopes.places.size

theorem session_rules : Turn.Rules Sound (fun _ => True) Evolves where
  refl := .refl
  trans := .trans
  begins _ _ _ _ _ _ := trivial
  change _ _ since sound change :=
    ⟨⟨sound.1.change change, Nat.lt_of_lt_of_le sound.2 change.places_le⟩,
      .change sound.1 since change⟩
  prepare machine memory sound :=
    ⟨⟨sound.1.of_lookup_eq rfl fun _ _ => rfl, sound.2⟩, Nat.le_refl _, fun _ _ _ => id,
      fun _ _ _ _ _ => rfl⟩
  native machine name arity behaviour sound := by
    have same := machine.lookup_defineFunction global
    have places := machine.outer_defineFunction global ⟨untyped name arity, .native behaviour⟩
    refine ⟨⟨sound.1.of_lookup_eq rfl fun place other => same place _ other, ?_⟩,
      Nat.le_of_eq places.1.symm, ?_, fun _ _ _ _ _ => rfl⟩
    · exact Nat.lt_of_lt_of_eq sound.2 places.1.symm
    · intro place other found known
      rw [← known]
      exact same place _ other
  run _ _ _ _ := trivial
  call _ _ _ _ _ _ _ := trivial

theorem standard_sound (output : Output) : (standard output).Sound := by
  have unknown : ∀ place name, ((standard output).scopes.scope place).lookup name = none := by
    intro place name
    rw [standard, defineNative, lookup_defineFunction]
    cases place <;> rfl
  refine ⟨⟨?_, ?_⟩, Nat.zero_lt_one⟩
  · intro place name found known
    rw [unknown] at known
    cases known
  · intro place otherPlace name otherName left right known
    rw [unknown] at known
    cases known

end Machine

/-! ## Assignments -/

def Expr.IsReceiverOf (receiver : Expr) (name : String) : Prop :=
  (∃ node, receiver = .access node name) ∨ ∃ node index, receiver = .element node name index

/-- Whether a variable may change is looked at before anything is evaluated. -/
theorem Expr.mutableVariable_of_constant {machine : Machine} {name : String}
    {target : Machine.Variable}
    (found : machine.scopes.lookup machine.current name = some target)
    (constant : target.isMutable = false) :
    (Expr.assign.mutableVariable name).run machine =
      (.error (.fault (.immutableAssignment name)), machine) := by
  have known : (Run.findVariable name).run machine = (.ok target, machine) := by
    simp only [Run.findVariable, ExceptT.run, ExceptT.mk, found]
  rw [Expr.assign.mutableVariable, Run.run_bind, known]
  dsimp only
  rw [constant]
  rfl

/-- An assignment to a constant fails, and nothing of it is evaluated. -/
theorem Stmt.assignment_of_constant {machine : Machine} {name : String}
    {target : Machine.Variable} {receiver : Expr} (receives : receiver.IsReceiverOf name)
    (found : machine.scopes.lookup machine.current name = some target)
    (constant : target.isMutable = false) (bound : Nat) (value : Expr) :
    ((Stmt.assignment receiver value).execute (Machine.invoke bound) bound).run machine =
      (.error (.fault (.immutableAssignment name)), machine) ∧
    Moment.parts ⟨bound, .execute (.assignment receiver value), machine⟩ = [] := by
  have refused := Expr.mutableVariable_of_constant found constant
  have assigned : (receiver.assign (Machine.invoke bound) value).run machine =
      (.error (.fault (.immutableAssignment name)), machine) := by
    rcases receives with ⟨node, rfl⟩ | ⟨node, index, rfl⟩
    · rw [Expr.assign, Run.run_bind, refused]
    · rw [Expr.assign, Run.run_bind, refused]
  constructor
  · rw [Stmt.execute, Run.run_bind, assigned]
  · rcases receives with ⟨node, rfl⟩ | ⟨node, index, rfl⟩
    · simp only [Moment.parts, Moment.executeParts, Moment.assignParts, Run.followedBy, refused]
    · simp only [Moment.parts, Moment.executeParts, Moment.assignParts, Run.followedBy, refused]

/-! ## Sessions -/

structure Machine.HasConstant (machine : Machine) (name : String) (constant : Machine.Variable)
    (value : Value) : Prop where
  known : machine.globalScope.lookup name = some constant
  fixed : constant.isMutable = false
  stored : machine.cell constant.cell = value

namespace Machine.HasConstant

variable {machine later : Machine} {name : String} {constant : Machine.Variable} {value : Value}

theorem evolves (has : machine.HasConstant name constant value)
    (evolves : machine.Evolves later) : later.HasConstant name constant value where
  known := evolves.bindings _ name constant has.known
  fixed := has.fixed
  stored := (evolves.constants _ name constant has.known has.fixed).trans has.stored

theorem of_define (present : Machine.global < machine.scopes.places.size)
    (defined : (Run.define Machine.global name false value).run machine = (.ok (), later)) :
    ∃ constant, later.HasConstant name constant value := by
  have opened : (Run.define Machine.global name false value).run machine =
      (if (machine.defineVariable Machine.global name .any false value).1 then .ok ()
        else .error (.fault (.redefinition name)),
      (machine.defineVariable Machine.global name .any false value).2) := rfl
  rw [opened] at defined
  rcases machine.defineVariable_cases Machine.global name .any false value with
    ⟨_, same⟩ | ⟨_, extended, grown, same⟩
  · rw [same] at defined
    cases defined
  · rw [same] at defined
    cases defined
    refine ⟨⟨name, .any, false, machine.cells.size⟩, ?_, rfl, ?_⟩
    · dsimp only
      rw [Scope.Tree.lookup_setScope_defined grown present]
      simp
    · simp [Machine.cell]

theorem unique (has : machine.HasConstant name constant value) (separate : machine.Separate)
    {position : Nat} {other : String} {target : Machine.Variable}
    (found : machine.scopes.lookup position other = some target)
    (shared : target.cell = constant.cell) : target = constant := by
  rcases Scope.Tree.exists_of_lookup found with ⟨place, _, bound⟩
  rcases separate.apart bound has.known shared with ⟨rfl, rfl⟩
  rw [has.known] at bound
  cases bound
  rfl

end Machine.HasConstant

/-- Once a session has defined a constant, every machine it goes through has the constant with
that value. And wherever a name leads to its cell, an assignment by that name fails without
evaluating anything, and without a change. -/
theorem Machine.session_constants (output : Output) (turns : List Turn) (inner : Moment)
    (passes : (Machine.standard output).Passes turns inner) (declaration : Declaration)
    (name : String) (value : Value)
    (defines : inner.activity = .define declaration Machine.global name false value)
    (defined : (Run.define Machine.global name false value).run inner.machine =
      (.ok (), inner.after)) :
    ∃ constant earlier later,
      (Machine.standard output).timeline turns = earlier ++ inner.after :: later ∧
      ∀ machine ∈ inner.after :: later,
        machine.HasConstant name constant value ∧
        ∀ other target, machine.scopes.lookup machine.current other = some target →
          target.cell = constant.cell →
          ∀ bound receiver assigned, receiver.IsReceiverOf other →
            ((Stmt.assignment receiver assigned).execute (Machine.invoke bound) bound).run
              machine = (.error (.fault (.immutableAssignment other)), machine) ∧
            Moment.parts ⟨bound, .execute (.assignment receiver assigned), machine⟩ = [] := by
  have course := Machine.session_rules.session_course turns (Machine.standard_sound output)
  have alone : inner.timeline = [inner.machine, inner.after] := by
    rw [Moment.timeline_eq, Moment.parts_of_define defines]
    rfl
  rcases passes.timeline_infix with ⟨before, later, split⟩
  rw [alone] at split
  have arranged : (Machine.standard output).timeline turns =
      (before ++ [inner.machine]) ++ inner.after :: later := by
    rw [← split]
    simp
  have ordered := course.ordered
  have kept := course.kept
  rw [arranged] at ordered kept
  have present := (kept inner.machine (by simp)).2
  rcases Machine.HasConstant.of_define present defined with ⟨constant, has⟩
  have follows : ∀ machine ∈ inner.after :: later, inner.after.Evolves machine := by
    intro machine member
    rcases List.mem_cons.mp member with rfl | member
    · exact .refl _
    · exact (List.pairwise_cons.mp (List.pairwise_append.mp ordered).2.1).1 machine member
  refine ⟨constant, before ++ [inner.machine], later, arranged, ?_⟩
  intro machine member
  have hasHere := has.evolves (follows machine member)
  refine ⟨hasHere, ?_⟩
  intro other target found shared bound receiver assigned receives
  have separate := (kept machine (List.mem_append_right _ member)).1
  have same := hasHere.unique separate found shared
  exact Stmt.assignment_of_constant receives found (same ▸ hasHere.fixed) bound assigned

/-- A program with a constant that its `main` assigns to, run and then called again. -/
theorem Machine.session_constants_of_assignment :
    let limit : Global := ⟨0, "limit", none, false, some (.literal ⟨1, 12⟩ (.integer 7))⟩
    let main : Procedure := ⟨2, "main", [], none,
      [.assignment (.access ⟨3, 30⟩ "limit") (.literal ⟨4, 38⟩ (.integer 8))]⟩
    let turns : List Turn := [⟨id, 5, .run ⟨[limit], [main]⟩⟩, ⟨id, 5, .call "main" []⟩]
    let defining : Moment := ⟨5, .define (.plain none limit.value) Machine.global "limit" false
      (.integer 7), Machine.standard (.empty none)⟩
    (Machine.standard (.empty none)).Passes turns defining ∧
    (Run.define Machine.global "limit" false (.integer 7)).run defining.machine =
      (.ok (), defining.after) ∧
    ∃ constant earlier later,
      (Machine.standard (.empty none)).timeline turns = earlier ++ defining.after :: later ∧
      ∀ machine ∈ defining.after :: later,
        machine.HasConstant "limit" constant (.integer 7) := by
  intro limit main turns defining
  have passes : (Machine.standard (.empty none)).Passes turns defining := by
    refine .now rfl (.inside List.mem_cons_self (.inside ?_ (.self _)))
    exact List.mem_append_right _ List.mem_cons_self
  have defined : (Run.define Machine.global "limit" false (.integer 7)).run defining.machine =
      (.ok (), defining.after) := rfl
  rcases Machine.session_constants (.empty none) turns defining passes _ "limit" (.integer 7) rfl
    defined with ⟨constant, earlier, later, arranged, stays⟩
  exact ⟨passes, defined, constant, earlier, later, arranged,
    fun machine member => (stays machine member).1⟩

end Plc
