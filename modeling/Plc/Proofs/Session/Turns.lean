import Plc.Machine.Session
import Plc.Proofs.Machine.Timeline

/-! Sessions turn by turn. Rules that every change of a run keeps to, and that hold when a
turn begins, are kept by whole sessions. -/

namespace Plc

/-- A request and what surrounds it: between requests the host may have made and changed
lists, and the request may go as far as `bound` says. -/
structure Turn where
  prepare : Memory → Memory
  bound : Nat
  request : Request

namespace Turn

def start (turn : Turn) (machine : Machine) : Machine :=
  { machine with memory := turn.prepare machine.memory }

def serve (turn : Turn) (machine : Machine) : Except Stop Value × Machine :=
  (turn.start machine).serve turn.bound turn.request

end Turn

/-- The machine when all turns are over, whether they succeeded or not. -/
def Machine.afterTurns (machine : Machine) (turns : List Turn) : Machine :=
  turns.foldl (fun machine turn => (turn.serve machine).2) machine

/-- A session with one bound for all requests is a session of turns. -/
theorem Machine.afterSession_eq_afterTurns (bound : Nat) (machine : Machine)
    (requests : List Request) :
    machine.afterSession bound requests =
      machine.afterTurns (requests.map fun request => ⟨id, bound, request⟩) := by
  rw [afterSession, afterTurns, List.foldl_map]
  rfl

/-! ## The course of a session -/

theorem Machine.call_run (bound : Nat) (name : String) (arguments : List Value)
    (machine : Machine) :
    (Machine.call bound name arguments).run machine =
      match machine.scopes.lookupFunction Machine.global name arguments.length with
      | some function => (Machine.invoke bound function arguments).run machine
      | none => (.error (.fault (.undefinedFunction name arguments.length)), machine) := by
  rw [Machine.call, Run.run_bind]
  simp only [Run.findFunction, ExceptT.run, ExceptT.mk]
  cases machine.scopes.lookupFunction Machine.global name arguments.length <;> rfl

namespace Turn

theorem serve_call (prepare : Memory → Memory) (bound : Nat) (name : String)
    (arguments : List Value) (machine : Machine) :
    serve ⟨prepare, bound, .call name arguments⟩ machine =
      (Machine.call bound name arguments).run
        (start ⟨prepare, bound, .call name arguments⟩ machine) := rfl

/-- What happens in the turn, unless nothing runs: a call may find no function, and a function
of the host is only made known. -/
def moment? (turn : Turn) (machine : Machine) : Option Moment :=
  match turn.request with
  | .run program => some ⟨turn.bound, .run program, turn.start machine⟩
  | .call name arguments =>
      ((turn.start machine).scopes.lookupFunction Machine.global name arguments.length).map
        fun function => ⟨turn.bound, .invoke function arguments, turn.start machine⟩
  | .native _ _ _ => none

def timeline (turn : Turn) (machine : Machine) : List Machine :=
  match turn.moment? machine with
  | some moment => moment.timeline
  | none => [turn.start machine, (turn.serve machine).2]

theorem after_moment {turn : Turn} {machine : Machine} {moment : Moment}
    (happens : turn.moment? machine = some moment) :
    moment.machine = turn.start machine ∧ moment.after = (turn.serve machine).2 := by
  rcases turn with ⟨prepare, bound, request⟩
  cases request with
  | run program =>
      cases happens
      exact ⟨rfl, rfl⟩
  | native name arity behaviour => cases happens
  | call name arguments =>
      rcases Option.map_eq_some_iff.mp happens with ⟨function, found, rfl⟩
      refine ⟨rfl, ?_⟩
      rw [serve_call, Machine.call_run, found]
      rfl

end Turn

def Machine.timeline (machine : Machine) : List Turn → List Machine
  | [] => [machine]
  | turn :: rest => machine :: (turn.timeline machine ++ (turn.serve machine).2.timeline rest)

/-- A session passes through what happens in its turns. -/
inductive Machine.Passes : Machine → List Turn → Moment → Prop where
  | now {machine : Machine} {turn : Turn} {rest : List Turn} {whole inner : Moment}
      (happens : turn.moment? machine = some whole) (includes : whole.Includes inner) :
      Passes machine (turn :: rest) inner
  | later {machine : Machine} {turn : Turn} {rest : List Turn} {inner : Moment}
      (passes : Passes (turn.serve machine).2 rest inner) : Passes machine (turn :: rest) inner

theorem Machine.Passes.timeline_infix {machine : Machine} {turns : List Turn} {inner : Moment}
    (passes : machine.Passes turns inner) : inner.timeline <:+: machine.timeline turns := by
  induction passes with
  | @now machine turn rest whole inner happens includes =>
      have course : turn.timeline machine = whole.timeline := by
        rw [Turn.timeline, happens]
      rw [Machine.timeline, course]
      apply includes.timeline_infix.trans
      exact ⟨[machine], (turn.serve machine).2.timeline rest, rfl⟩
  | @later machine turn rest inner _ induction =>
      apply induction.trans
      exact ⟨machine :: turn.timeline machine, [], by simp [Machine.timeline]⟩

/-- Rules for whole sessions: what a turn begins with is sound and allowed. -/
structure Turn.Rules (sound : Machine → Prop) (allows : Moment → Prop)
    (follows : Machine → Machine → Prop) : Prop extends Moment.Rules sound allows follows where
  prepare : ∀ machine memory, sound machine →
    sound { machine with memory } ∧ follows machine { machine with memory }
  native : ∀ machine name arity behaviour, sound machine →
    sound (machine.defineNative name arity behaviour) ∧
      follows machine (machine.defineNative name arity behaviour)
  run : ∀ bound program machine, sound machine → allows ⟨bound, .run program, machine⟩
  call : ∀ bound name arguments function machine, sound machine →
    machine.scopes.lookupFunction Machine.global name arguments.length = some function →
    allows ⟨bound, .invoke function arguments, machine⟩

namespace Turn.Rules

variable {sound : Machine → Prop} {allows : Moment → Prop}
  {follows : Machine → Machine → Prop} {machine : Machine}

theorem moment_allowed (rules : Turn.Rules sound allows follows) {turn : Turn}
    (begun : sound (turn.start machine)) {moment : Moment}
    (happens : turn.moment? machine = some moment) : allows moment := by
  rcases turn with ⟨prepare, bound, request⟩
  cases request with
  | run program =>
      cases happens
      exact rules.run bound program _ begun
  | native name arity behaviour => cases happens
  | call name arguments =>
      rcases Option.map_eq_some_iff.mp happens with ⟨function, found, rfl⟩
      exact rules.call bound name arguments function _ begun found

theorem idle (rules : Turn.Rules sound allows follows) {turn : Turn}
    (begun : sound (turn.start machine)) (idle : turn.moment? machine = none) :
    sound (turn.serve machine).2 ∧ follows (turn.start machine) (turn.serve machine).2 := by
  rcases turn with ⟨prepare, bound, request⟩
  cases request with
  | run program => cases idle
  | native name arity behaviour => exact rules.native _ name arity behaviour begun
  | call name arguments =>
      have missing := Option.map_eq_none_iff.mp idle
      rw [serve_call, Machine.call_run, missing]
      exact ⟨begun, rules.refl _⟩

theorem turn_course (rules : Turn.Rules sound allows follows) (turn : Turn)
    (here : sound machine) :
    Moment.Course sound follows machine (turn.timeline machine) (turn.serve machine).2 := by
  have begun := rules.prepare machine (turn.prepare machine.memory) here
  have started : sound (turn.start machine) := begun.1
  apply rules.precede begun.2
  unfold Turn.timeline
  split
  · rename_i moment happens
    have ends := Turn.after_moment happens
    have obeys := rules.obeys moment (rules.moment_allowed started happens)
      (ends.1.symm ▸ started)
    have course := obeys.course
    rw [ends.1, ends.2] at course
    exact course
  · rename_i idle
    have ends := rules.idle started idle
    exact rules.append (rules.reach (rules.refl _) started) (rules.reach ends.2 ends.1)

/-- A session keeps to rules that its turns keep to. -/
theorem session_course (rules : Turn.Rules sound allows follows) (turns : List Turn)
    (here : sound machine) :
    Moment.Course sound follows machine (machine.timeline turns) (machine.afterTurns turns) := by
  induction turns generalizing machine with
  | nil => exact rules.reach (rules.refl _) here
  | cons turn rest induction =>
      have course := rules.turn_course turn here
      exact rules.append (rules.reach (rules.refl _) here)
        (rules.append course (induction course.arrived))

end Turn.Rules

end Plc
