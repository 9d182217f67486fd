import Plc.Proofs.Machine.Links

/-! Runs as a whole. Going from parts to parts comes to an end, so what a run does is
settled by induction over its moments: whatever every single change preserves is true of
all machines that a run goes through. -/

namespace Plc.Moment

theorem Includes.trans {whole middle inner : Moment} (first : whole.Includes middle)
    (second : middle.Includes inner) : whole.Includes inner := by
  induction first with
  | self moment => exact second
  | inside member _ induction => exact .inside member (induction second)

/-! ## Induction over the parts

Going from parts to parts comes to an end: a call lowers the bound, a loop the rounds
that are left, and everything else goes to a smaller piece of the program. -/

noncomputable def remaining : Activity → Nat
  | .evaluate value => sizeOf value
  | .evaluateAll values => sizeOf values
  | .execute statement => sizeOf statement
  | .executeAll statements => sizeOf statements
  | .select _ cases => sizeOf cases
  | .iterate condition body _ => sizeOf condition + sizeOf body
  | .invoke _ _ | .define _ _ _ _ _ => 0
  | .bind _ _ _ bindings => bindings.length + 1
  | .defineGlobals declarations => sizeOf declarations
  | .run program => sizeOf program

def roundsLeft : Activity → Nat
  | .iterate _ _ rounds => rounds
  | _ => 0

def Smaller (part whole : Moment) : Prop :=
  part.bound < whole.bound ∨ part.bound = whole.bound ∧
    (remaining part.activity < remaining whole.activity ∨
      remaining part.activity = remaining whole.activity ∧
        roundsLeft part.activity < roundsLeft whole.activity)

private theorem initialParts_smaller {bound : Nat} {machine : Machine} {value : Option Expr}
    {part : Moment} (member : part ∈ initialParts bound machine value) :
    part.bound = bound ∧ remaining part.activity < sizeOf value := by
  cases value with
  | none => cases member
  | some value =>
      cases List.mem_singleton.mp member
      exact ⟨rfl, by simp +arith [remaining]⟩

private theorem evaluateParts_smaller {bound : Nat} {machine : Machine} {value : Expr}
    {part : Moment} (member : part ∈ evaluateParts bound machine value) :
    part.bound = bound ∧ remaining part.activity < sizeOf value := by
  cases value with
  | literal node value => cases member
  | access node name => cases member
  | group node inner =>
      cases List.mem_singleton.mp member
      exact ⟨rfl, by simp +arith [remaining]⟩
  | binary node operator left right =>
      rcases List.mem_cons.mp member with rfl | later
      · exact ⟨rfl, by simp +arith [remaining]⟩
      · rcases Run.mem_followedBy later with ⟨_, _, _, later⟩
        cases List.mem_singleton.mp later
        exact ⟨rfl, by simp +arith [remaining]⟩
  | element node name index =>
      cases List.mem_singleton.mp member
      exact ⟨rfl, by simp +arith [remaining]⟩
  | call node name arguments =>
      rcases List.mem_cons.mp member with rfl | later
      · exact ⟨rfl, by simp +arith [remaining]⟩
      · rcases Run.mem_followedBy later with ⟨_, _, _, later⟩
        rcases Run.mem_followedBy later with ⟨_, _, _, later⟩
        cases List.mem_singleton.mp later
        exact ⟨rfl, by simp +arith [remaining]⟩
  | list node elements =>
      cases List.mem_singleton.mp member
      exact ⟨rfl, by simp +arith [remaining]⟩

private theorem assignParts_smaller {bound : Nat} {machine : Machine} {receiver value : Expr}
    {part : Moment} (member : part ∈ assignParts bound machine value receiver) :
    part.bound = bound ∧ remaining part.activity < sizeOf receiver + sizeOf value := by
  cases receiver with
  | access node name =>
      rcases Run.mem_followedBy member with ⟨_, _, _, later⟩
      cases List.mem_singleton.mp later
      exact ⟨rfl, by simp +arith [remaining]⟩
  | element node name index =>
      rcases Run.mem_followedBy member with ⟨_, _, _, later⟩
      rcases List.mem_cons.mp later with rfl | later
      · exact ⟨rfl, by simp +arith [remaining]⟩
      · rcases Run.mem_followedBy later with ⟨_, _, _, later⟩
        cases List.mem_singleton.mp later
        exact ⟨rfl, by simp +arith [remaining]⟩
  | literal node value => cases member
  | group node inner => cases member
  | binary node operator left right => cases member
  | call node name arguments => cases member
  | list node elements => cases member

private theorem executeParts_smaller {bound : Nat} {machine : Machine} {statement : Stmt}
    {part : Moment} (member : part ∈ executeParts bound machine statement) :
    part.bound = bound ∧ remaining part.activity < sizeOf statement := by
  cases statement with
  | expression value =>
      cases List.mem_singleton.mp member
      exact ⟨rfl, by simp +arith [remaining]⟩
  | returns value =>
      cases List.mem_singleton.mp member
      exact ⟨rfl, by simp +arith [remaining]⟩
  | declaration id name typeName value =>
      rcases List.mem_append.mp member with initial | later
      · have smaller := initialParts_smaller initial
        exact ⟨smaller.1, by simp only [Stmt.declaration.sizeOf_spec]; omega⟩
      · rcases Run.mem_followedBy later with ⟨_, _, _, later⟩
        cases List.mem_singleton.mp later
        exact ⟨rfl, by simp +arith [remaining]⟩
  | assignment receiver value =>
      have smaller := assignParts_smaller member
      exact ⟨smaller.1, by simp only [Stmt.assignment.sizeOf_spec]; omega⟩
  | conditional condition whenTrue whenFalse =>
      rcases List.mem_cons.mp member with rfl | later
      · exact ⟨rfl, by simp +arith [remaining]⟩
      · rcases Run.mem_followedBy later with ⟨_, _, _, later⟩
        rcases Run.mem_followedBy later with ⟨holds, _, _, later⟩
        cases List.mem_singleton.mp later
        refine ⟨rfl, ?_⟩
        cases holds <;> simp +arith [remaining, block]
  | switch condition cases =>
      rcases List.mem_cons.mp member with rfl | later
      · exact ⟨rfl, by simp +arith [remaining]⟩
      · rcases Run.mem_followedBy later with ⟨_, _, _, later⟩
        cases List.mem_singleton.mp later
        exact ⟨rfl, by simp +arith [remaining]⟩
  | loop condition body =>
      cases List.mem_singleton.mp member
      exact ⟨rfl, by simp +arith [remaining]⟩

private theorem selectParts_smaller {bound : Nat} {machine : Machine} {value : Value}
    {cases : List Case} {part : Moment} (member : part ∈ selectParts bound machine value cases) :
    part.bound = bound ∧ remaining part.activity < sizeOf cases := by
  cases cases with
  | nil => cases member
  | cons head tail =>
      rcases head with ⟨_ | test, body⟩
      · cases List.mem_singleton.mp member
        exact ⟨rfl, by simp +arith [remaining, block]⟩
      · rcases List.mem_cons.mp member with rfl | later
        · exact ⟨rfl, by simp +arith [remaining]⟩
        · rcases Run.mem_followedBy later with ⟨_, _, _, later⟩
          rcases Run.mem_followedBy later with ⟨same, _, _, later⟩
          cases same with
          | true =>
              cases List.mem_singleton.mp later
              exact ⟨rfl, by simp +arith [remaining, block]⟩
          | false =>
              cases List.mem_singleton.mp later
              exact ⟨rfl, by simp +arith [remaining]⟩

private theorem iterateParts_smaller {bound : Nat} {machine : Machine} {condition : Expr}
    {body : List Stmt} {rounds : Nat} {part : Moment}
    (member : part ∈ iterateParts bound machine condition body rounds) :
    part.Smaller ⟨bound, .iterate condition body rounds, machine⟩ := by
  cases rounds with
  | zero => cases member
  | succ rounds =>
      rcases List.mem_cons.mp member with rfl | later
      · have positive : 0 < sizeOf body := by cases body <;> simp +arith
        exact .inr ⟨rfl, .inl (Nat.lt_add_of_pos_right positive)⟩
      · rcases Run.mem_followedBy later with ⟨_, _, _, later⟩
        rcases Run.mem_followedBy later with ⟨again, _, _, later⟩
        cases again with
        | false => cases later
        | true =>
            have positive : 0 < sizeOf condition := by cases condition <;> simp +arith
            rcases List.mem_cons.mp later with rfl | later
            · exact .inr ⟨rfl, .inl (Nat.lt_add_of_pos_left positive)⟩
            · rcases Run.mem_followedBy later with ⟨flow, _, _, later⟩
              cases flow with
              | returned value => cases later
              | normal =>
                  cases List.mem_singleton.mp later
                  exact .inr ⟨rfl, .inr ⟨rfl, Nat.lt_succ_self _⟩⟩

private theorem invokeParts_smaller {bound : Nat} {machine : Machine}
    {function : Machine.Function} {arguments : List Value} {part : Moment}
    (member : part ∈ invokeParts machine function arguments bound) : part.bound < bound := by
  cases bound with
  | zero => cases member
  | succ bound =>
      simp only [invokeParts] at member
      split at member
      · cases member
      · cases member
      · split at member
        · cases member
        · rcases List.mem_cons.mp member with rfl | later
          · exact Nat.lt_succ_self _
          · rcases Run.mem_followedBy later with ⟨_, _, _, later⟩
            cases List.mem_singleton.mp later
            exact Nat.lt_succ_self _

private theorem parts_smaller {whole part : Moment} (member : part ∈ whole.parts) :
    part.Smaller whole := by
  rcases whole with ⟨bound, activity, machine⟩
  cases activity with
  | evaluate value => exact .inr (And.imp_right .inl (evaluateParts_smaller member))
  | execute statement => exact .inr (And.imp_right .inl (executeParts_smaller member))
  | select value cases => exact .inr (And.imp_right .inl (selectParts_smaller member))
  | define declaration position name isMutable value => cases member
  | evaluateAll values =>
      cases values with
      | nil => cases member
      | cons head tail =>
          rcases List.mem_cons.mp member with rfl | later
          · exact .inr ⟨rfl, .inl (by simp +arith [remaining])⟩
          · rcases Run.mem_followedBy later with ⟨_, _, _, later⟩
            cases List.mem_singleton.mp later
            exact .inr ⟨rfl, .inl (by simp +arith [remaining])⟩
  | executeAll statements =>
      cases statements with
      | nil => cases member
      | cons head tail =>
          rcases List.mem_cons.mp member with rfl | later
          · exact .inr ⟨rfl, .inl (by simp +arith [remaining])⟩
          · rcases Run.mem_followedBy later with ⟨flow, _, _, later⟩
            cases flow with
            | returned value => cases later
            | normal =>
                cases List.mem_singleton.mp later
                exact .inr ⟨rfl, .inl (by simp +arith [remaining])⟩
  | iterate condition body rounds => exact iterateParts_smaller member
  | invoke function arguments => exact .inl (invokeParts_smaller member)
  | bind signature index position bindings =>
      cases bindings with
      | nil => cases member
      | cons head tail =>
          rcases List.mem_cons.mp member with rfl | later
          · exact .inr ⟨rfl, .inl (Nat.zero_lt_succ _)⟩
          · rcases Run.mem_followedBy later with ⟨_, _, _, later⟩
            cases List.mem_singleton.mp later
            exact .inr ⟨rfl, .inl (Nat.lt_succ_self _)⟩
  | defineGlobals declarations =>
      cases declarations with
      | nil => cases member
      | cons head tail =>
          rcases head with ⟨id, name, typeName, isMutable, value⟩
          rcases List.mem_append.mp member with initial | later
          · have smaller : part.bound = bound ∧ remaining part.activity < sizeOf value :=
              initialParts_smaller initial
            refine .inr ⟨smaller.1, .inl ?_⟩
            change remaining part.activity < sizeOf (_ :: tail)
            simp only [List.cons.sizeOf_spec, Global.mk.sizeOf_spec]
            omega
          · rcases Run.mem_followedBy later with ⟨_, _, _, later⟩
            rcases List.mem_cons.mp later with rfl | later
            · exact .inr ⟨rfl, .inl (by simp +arith [remaining])⟩
            · rcases Run.mem_followedBy later with ⟨_, _, _, later⟩
              cases List.mem_singleton.mp later
              exact .inr ⟨rfl, .inl (by simp +arith [remaining])⟩
  | run program =>
      rcases program with ⟨globals, procedures⟩
      rcases List.mem_cons.mp member with rfl | later
      · exact .inr ⟨rfl, .inl (by simp +arith [remaining])⟩
      · rcases Run.mem_followedBy later with ⟨_, _, _, later⟩
        rcases Run.mem_followedBy later with ⟨_, _, _, later⟩
        rcases Run.mem_followedBy later with ⟨_, _, _, later⟩
        cases List.mem_singleton.mp later
        exact .inr ⟨rfl, .inl (by simp +arith [remaining])⟩

private theorem Smaller.decreases {part whole : Moment} (smaller : part.Smaller whole) :
    Prod.Lex (· < ·) (Prod.Lex (· < ·) (· < ·))
      (part.bound, remaining part.activity, roundsLeft part.activity)
      (whole.bound, remaining whole.activity, roundsLeft whole.activity) := by
  rcases smaller with bound | ⟨bound, smaller | ⟨same, rounds⟩⟩
  · exact .left _ _ bound
  · rw [bound]
    exact .right _ (.left _ _ smaller)
  · rw [bound, same]
    exact .right _ (.right _ rounds)

/-- What holds of a moment whenever it holds of its parts holds of every moment. -/
theorem induction_on_parts {motive : Moment → Prop}
    (step : ∀ whole, (∀ part ∈ whole.parts, motive part) → motive whole) (moment : Moment) :
    motive moment :=
  step moment fun part _ => induction_on_parts step part
termination_by (moment.bound, remaining moment.activity, roundsLeft moment.activity)
decreasing_by
  rename_i member
  exact (parts_smaller member).decreases

/-! ## The course of time -/

/-- The machines at which the moments inside a moment start and end, in their order. -/
def timeline (moment : Moment) : List Machine :=
  moment.machine ::
    (moment.parts.attach.flatMap fun part => timeline part.1) ++ [moment.after]
termination_by (moment.bound, remaining moment.activity, roundsLeft moment.activity)
decreasing_by exact (parts_smaller part.2).decreases

theorem timeline_eq (moment : Moment) :
    moment.timeline = moment.machine :: (moment.parts.flatMap timeline ++ [moment.after]) := by
  rw [timeline]
  simp

theorem machine_mem_timeline (moment : Moment) : moment.machine ∈ moment.timeline := by
  rw [timeline_eq]
  exact List.mem_cons_self

/-- The timeline of a moment is a segment of that of the whole. -/
theorem Includes.timeline_infix {whole inner : Moment} (includes : whole.Includes inner) :
    inner.timeline <:+: whole.timeline := by
  induction includes with
  | self moment => exact List.infix_refl _
  | @inside whole part inner member _ induction =>
      rcases List.append_of_mem member with ⟨earlier, later, parts⟩
      rw [timeline_eq whole, parts, List.flatMap_append, List.flatMap_cons]
      apply induction.trans
      refine ⟨whole.machine :: earlier.flatMap timeline,
        later.flatMap timeline ++ [whole.after], ?_⟩
      simp

/-! ## What every change preserves -/

/-- Machines between `start` and `finish` that are sound and in order. -/
structure Course (sound : Machine → Prop) (follows : Machine → Machine → Prop)
    (start : Machine) (machines : List Machine) (finish : Machine) : Prop where
  kept : ∀ machine ∈ machines, sound machine
  starts : ∀ machine ∈ machines, follows start machine
  ends : ∀ machine ∈ machines, follows machine finish
  ordered : machines.Pairwise follows
  across : follows start finish
  arrived : sound finish

/-- Rules about machines and moments that can be checked one change at a time. As long as
a moment is one that the rules allow, its changes lead from machines that are sound to
machines that are sound and that may follow, and its parts are allowed as well. -/
structure Rules (sound : Machine → Prop) (allows : Moment → Prop)
    (follows : Machine → Machine → Prop) : Prop where
  refl : ∀ machine, follows machine machine
  trans : ∀ {first second third}, follows first second → follows second third →
    follows first third
  begins : ∀ {whole part : Moment}, allows whole → sound whole.machine →
    part ∈ whole.parts → whole.Begins part → follows whole.machine part.machine →
    sound part.machine → allows part
  change : ∀ {moment : Moment} {before after : Machine}, allows moment → sound moment.machine →
    follows moment.machine before → sound before → moment.Change before after →
    sound after ∧ follows before after

/-- The whole moment keeps to the rules. -/
structure Obeys (sound : Machine → Prop) (allows : Moment → Prop)
    (follows : Machine → Machine → Prop) (moment : Moment) : Prop where
  course : Course sound follows moment.machine moment.timeline moment.after
  inner : ∀ inner, moment.Includes inner → allows inner

namespace Rules

variable {sound : Machine → Prop} {allows : Moment → Prop}
  {follows : Machine → Machine → Prop} {whole moment : Moment}
  {start middle finish machine last : Machine} {machines more : List Machine}

theorem precede (rules : Rules sound allows follows) (before : follows start middle)
    (course : Course sound follows middle machines finish) :
    Course sound follows start machines finish :=
  { course with
    starts := fun machine member => rules.trans before (course.starts machine member)
    across := rules.trans before course.across }

theorem reach (rules : Rules sound allows follows) (across : follows start finish)
    (arrived : sound finish) : Course sound follows start [finish] finish where
  kept machine member := by
    rw [List.mem_singleton.mp member]
    exact arrived
  starts machine member := by
    rw [List.mem_singleton.mp member]
    exact across
  ends machine member := by
    rw [List.mem_singleton.mp member]
    exact rules.refl finish
  ordered := List.pairwise_singleton _ _
  across := across
  arrived := arrived

theorem append (rules : Rules sound allows follows)
    (first : Course sound follows start machines middle)
    (second : Course sound follows middle more finish) :
    Course sound follows start (machines ++ more) finish where
  kept machine member := by
    rcases List.mem_append.mp member with earlier | later
    · exact first.kept machine earlier
    · exact second.kept machine later
  starts machine member := by
    rcases List.mem_append.mp member with earlier | later
    · exact first.starts machine earlier
    · exact rules.trans first.across (second.starts machine later)
  ends machine member := by
    rcases List.mem_append.mp member with earlier | later
    · exact rules.trans (first.ends machine earlier) second.across
    · exact second.ends machine later
  ordered := List.pairwise_append.mpr ⟨first.ordered, second.ordered,
    fun machine earlier other later =>
      rules.trans (first.ends machine earlier) (second.starts other later)⟩
  across := rules.trans first.across second.across
  arrived := second.arrived

theorem changes (rules : Rules sound allows follows) (allowed : allows moment)
    (begun : sound moment.machine) (since : follows moment.machine machine)
    (here : sound machine) (changes : moment.Changes machine last) :
    sound last ∧ follows machine last := by
  induction changes with
  | refl => exact ⟨here, rules.refl machine⟩
  | tail _ change induction =>
      have next := rules.change allowed begun (rules.trans since induction.2) induction.1 change
      exact ⟨next.1, rules.trans induction.2 next.2⟩

private theorem linked (rules : Rules sound allows follows) (allowed : allows whole)
    (begun : sound whole.machine) {moments : List Moment}
    (members : ∀ part ∈ moments, part ∈ whole.parts)
    (obey : ∀ part ∈ moments, allows part → sound part.machine →
      part.Obeys sound allows follows)
    (since : follows whole.machine machine) (here : sound machine)
    (linked : whole.Linked machine moments last) :
    Course sound follows machine (moments.flatMap timeline ++ [last]) last ∧
      ∀ part ∈ moments, ∀ inner, part.Includes inner → allows inner := by
  induction moments generalizing machine with
  | nil =>
      have ends := rules.changes allowed begun since here linked
      exact ⟨rules.reach ends.2 ends.1, fun _ member => by cases member⟩
  | cons part rest induction =>
      have reached := rules.changes allowed begun since here linked.1
      have sincePart := rules.trans since reached.2
      have allowedPart := rules.begins allowed begun (members part List.mem_cons_self)
        linked.2.1 sincePart reached.1
      have obeys := obey part List.mem_cons_self allowedPart reached.1
      have later := induction (fun other member => members other (List.mem_cons_of_mem _ member))
        (fun other member => obey other (List.mem_cons_of_mem _ member))
        (rules.trans sincePart obeys.course.across) obeys.course.arrived linked.2.2
      rw [List.flatMap_cons, List.append_assoc]
      constructor
      · exact rules.precede reached.2 (rules.append obeys.course later.1)
      · intro other member
        rcases List.mem_cons.mp member with rfl | member
        · exact obeys.inner
        · exact later.2 other member

/-- A run keeps to rules that each of its changes keeps to. -/
theorem obeys (rules : Rules sound allows follows) (moment : Moment) (allowed : allows moment)
    (begun : sound moment.machine) : moment.Obeys sound allows follows := by
  induction moment using induction_on_parts with
  | step whole induction =>
      have way := rules.linked allowed begun (fun _ member => member) induction (rules.refl _)
        begun whole.parts_linked
      constructor
      · rw [timeline_eq]
        exact rules.append (rules.reach (rules.refl _) begun) way.1
      · intro inner includes
        cases includes with
        | self => exact allowed
        | inside member includes => exact way.2 _ member inner includes

end Rules

end Plc.Moment
