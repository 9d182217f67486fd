import Plc.Machine.Evaluate

/-! Reasoning about runs step by step. `Ensures` says what holds when an action
gives a value and what holds when it stops; the lemmas say how the parts a run
is made of contribute to it. -/

namespace Plc.Run

/-! ## Opening an action -/

theorem run_bind (action : Run α) (next : α → Run β) (machine : Machine) :
    (action >>= next).run machine =
      match action.run machine with
      | (.ok value, after) => (next value).run after
      | (.error stop, after) => (.error stop, after) := by
  have opened : (action >>= next).run machine =
      ExceptT.bindCont next (action.run machine).1 (action.run machine).2 := rfl
  rw [opened]
  rcases action.run machine with ⟨result, after⟩
  cases result <;> rfl

theorem bind_eq_ok {action : Run α} {next : α → Run β} {machine after : Machine} {result : β}
    (ran : (action >>= next).run machine = (.ok result, after)) :
    ∃ value middle, action.run machine = (.ok value, middle) ∧
      (next value).run middle = (.ok result, after) := by
  rw [run_bind] at ran
  split at ran
  · exact ⟨_, _, by assumption, ran⟩
  · cases ran

@[simp] theorem run_get (machine : Machine) :
    (get : Run Machine).run machine = (.ok machine, machine) := rfl

/-! ## What an action ensures -/

/-- From `machine`, the action gives a value with `onValue`, or stops with
`onStop`. Both speak of the machine afterwards, too. -/
def Ensures (action : Run α) (machine : Machine) (onValue : α → Machine → Prop)
    (onStop : Stop → Machine → Prop) : Prop :=
  match action.run machine with
  | (.ok value, after) => onValue value after
  | (.error stop, after) => onStop stop after

variable {action : Run α} {machine : Machine}
  {onValue : α → Machine → Prop} {onStop : Stop → Machine → Prop}

theorem Ensures.value (ensures : action.Ensures machine onValue onStop)
    {result : α} {after : Machine} (ran : action.run machine = (.ok result, after)) :
    onValue result after := by
  simpa only [Ensures, ran] using ensures

theorem Ensures.stop (ensures : action.Ensures machine onValue onStop)
    {stop : Stop} {after : Machine} (ran : action.run machine = (.error stop, after)) :
    onStop stop after := by
  simpa only [Ensures, ran] using ensures

theorem Ensures.intro
    (value : ∀ result after, action.run machine = (.ok result, after) →
      onValue result after)
    (stop : ∀ stop after, action.run machine = (.error stop, after) →
      onStop stop after) :
    action.Ensures machine onValue onStop := by
  unfold Ensures
  split
  · exact value _ _ (by assumption)
  · exact stop _ _ (by assumption)

theorem Ensures.mono {weakerValue : α → Machine → Prop} {weakerStop : Stop → Machine → Prop}
    (ensures : action.Ensures machine onValue onStop)
    (value : ∀ result after, action.run machine = (.ok result, after) →
      onValue result after → weakerValue result after)
    (stop : ∀ stop after, onStop stop after → weakerStop stop after) :
    action.Ensures machine weakerValue weakerStop :=
  .intro (fun result after ran => value result after ran (ensures.value ran))
    (fun _ after ran => stop _ after (ensures.stop ran))

theorem Ensures.bind {next : α → Run β} {onNext : β → Machine → Prop}
    (first : action.Ensures machine onValue onStop)
    (rest : ∀ result after, action.run machine = (.ok result, after) →
      onValue result after → (next result).Ensures after onNext onStop) :
    (action >>= next).Ensures machine onNext onStop := by
  unfold Ensures
  rw [run_bind]
  cases ran : action.run machine with
  | mk result after =>
      cases result with
      | ok value => exact rest value after ran (first.value ran)
      | error stop => exact first.stop ran

theorem ensures_pure {value : α} (holds : onValue value machine) :
    (pure value : Run α).Ensures machine onValue onStop := holds

theorem ensures_fault {error : RuntimeError} (holds : onStop (.fault error) machine) :
    (fault error : Run α).Ensures machine onValue onStop := holds

theorem ensures_inScope {position : Nat}
    (inside : action.Ensures { machine with current := position }
      (fun value after => onValue value { after with current := machine.current })
      (fun stop after => onStop stop { after with current := machine.current })) :
    (inScope position action).Ensures machine onValue onStop := by
  have opened : (inScope position action).run machine =
      ((action.run { machine with current := position }).1,
        { (action.run { machine with current := position }).2 with
          current := machine.current }) := rfl
  unfold Ensures at inside ⊢
  rw [opened]
  cases ran : action.run { machine with current := position } with
  | mk result after =>
      rw [ran] at inside
      cases result <;> exact inside

theorem ensures_inChild
    (inside : (inScope (machine.child machine.current).1 action).Ensures
      (machine.child machine.current).2 onValue onStop) :
    (inChild action).Ensures machine onValue onStop := inside

theorem ensures_check {result : Except RuntimeError α}
    (value : ∀ given, result = .ok given → onValue given machine)
    (error : ∀ error, result = .error error → onStop (.fault error) machine) :
    (check result).Ensures machine onValue onStop := by
  cases result with
  | ok given => exact value given rfl
  | error reason => exact error reason rfl

end Plc.Run
