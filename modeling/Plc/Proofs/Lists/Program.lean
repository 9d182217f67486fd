import Plc.Proofs.Lists.Assignment
import Plc.Proofs.Lists.Globals
import Plc.Proofs.Typing.Sound

/-! The lists of a run. The lists that there are at some point of the run of a checked program
are those of its first literals, and each has the length of its literal from the moment it is
made. -/

namespace Plc

open Typing

variable {program : Program}

/-! ## Making a list -/

/-- A literal makes one list, or none if it fails. -/
theorem Moment.list_outcome {bound : Nat} (node : Node) {elements : List Expr}
    {machine after : Machine} {result : Except Stop Value}
    (bare : ∀ term ∈ Expr.subtermsOfAll elements, term.isList = false)
    (known : machine.MakesNoList)
    (ran : ((Expr.list node elements).evaluate (Machine.invoke bound)).run machine =
      (result, after)) :
    (result = .ok (.list machine.memory.lists.size) ∧
      after.memory.lengths = machine.memory.lengths ++ [elements.length]) ∨
    (∃ stop, result = .error stop) ∧ after.memory.lengths = machine.memory.lengths := by
  have listless : Moment.MakesNoList ⟨bound, .evaluateAll elements, machine⟩ := ⟨bare, nofun⟩
  have same := listless.lengths_after known
  have evaluated : Moment.after ⟨bound, .evaluateAll elements, machine⟩ =
      ((Expr.evaluateAll (Machine.invoke bound) elements).run machine).2 := rfl
  rw [evaluated] at same
  rw [Expr.evaluate, Run.run_bind] at ran
  cases gave : (Expr.evaluateAll (Machine.invoke bound) elements).run machine with
  | mk outcome middle =>
      rw [gave] at ran same
      cases outcome with
      | error stop =>
          cases ran
          exact .inr ⟨⟨stop, rfl⟩, same⟩
      | ok values =>
          have size := congrArg List.length same
          simp only [Memory.length_lengths] at size
          cases ran
          refine .inl ⟨by rw [← size], ?_⟩
          rw [← same, ← Expr.length_of_evaluateAll gave]
          exact middle.memory.lengths_allocate values

theorem Program.ListsAreGlobal.lengths_of_initial (plain : program.ListsAreGlobal)
    {declaration : Global} (member : declaration ∈ program.globals) {bound : Nat}
    {machine after : Machine} {value : Value} (known : machine.MakesNoList)
    (ran : (Expr.evaluateInitial (Machine.invoke bound) declaration.value).run machine =
      (.ok value, after)) :
    after.memory.lengths = machine.memory.lengths ++ Global.lengths [declaration] := by
  cases isList : declaration.list? with
  | some list =>
      rcases list with ⟨node, elements⟩
      rw [Global.value_of_list? isList] at ran
      rw [Global.lengths_cons_of_list isList]
      have bare := plain.elements declaration member node elements isList
      rcases Moment.list_outcome node bare known ran with ⟨_, made⟩ | ⟨⟨stop, failed⟩, _⟩
      · exact made
      · cases failed
  | none =>
      rw [Global.lengths_cons_of_other isList]
      have bare := plain.others declaration member isList
      unfold Global.subterms at bare
      cases stated : declaration.value with
      | none =>
          rw [stated] at ran
          cases ran
          exact (List.append_nil _).symm
      | some first =>
          rw [stated] at ran bare
          have listless : Moment.MakesNoList ⟨bound, .evaluate first, machine⟩ := ⟨bare, nofun⟩
          have same := listless.lengths_after known
          have evaluated : Moment.after ⟨bound, .evaluate first, machine⟩ = after :=
            congrArg Prod.snd ran
          rw [evaluated] at same
          exact same.trans (List.append_nil _).symm

/-! ## The moments of a run -/

/-- A moment of the run of a program, with the lists that have been made before it. -/
inductive Program.Visits (program : Program) : Moment → Prop where
  | start {bound : Nat} {machine : Machine} (made : machine.memory.lengths = []) :
      Visits program ⟨bound, .run program, machine⟩
  | globals {bound : Nat} {machine : Machine} {earlier rest : List Global}
      (all : program.globals = earlier ++ rest)
      (made : machine.memory.lengths = Global.lengths earlier) :
      Visits program ⟨bound, .defineGlobals rest, machine⟩
  | list {bound : Nat} {machine : Machine} {earlier rest : List Global} {declaration : Global}
      {node : Node} {elements : List Expr} (all : program.globals = earlier ++ declaration :: rest)
      (isList : declaration.list? = some (node, elements))
      (made : machine.memory.lengths = Global.lengths earlier) :
      Visits program ⟨bound, .evaluate (.list node elements), machine⟩
  /-- Nothing that makes a list is left. -/
  | other {moment : Moment} (bare : moment.MakesNoList) : Visits program moment

namespace Program.ListsAreGlobal

variable {moment whole part : Moment} {before after : Machine}

private theorem visits_global (plain : program.ListsAreGlobal) {bound : Nat} {machine : Machine}
    {earlier rest : List Global} (all : program.globals = earlier ++ rest)
    (made : machine.memory.lengths = Global.lengths earlier) (known : machine.MakesNoList)
    (member : part ∈ Moment.parts ⟨bound, .defineGlobals rest, machine⟩) :
    program.Visits part := by
  cases rest with
  | nil => cases member
  | cons declaration rest =>
      have among : declaration ∈ program.globals := by simp [all]
      rcases List.mem_append.mp member with initial | member
      · cases first : declaration.value with
        | none =>
            rw [first] at initial
            cases initial
        | some value =>
            rw [first] at initial
            cases List.mem_singleton.mp initial
            cases isList : declaration.list? with
            | some list =>
                have stated := Global.value_of_list? isList
                rw [first] at stated
                cases stated
                exact .list all isList made
            | none =>
                have bare := plain.others declaration among isList
                rw [Global.subterms, first] at bare
                exact .other ⟨bare, nofun⟩
      · rcases Run.mem_followedBy member with ⟨value, evaluated, ran, member⟩
        rcases List.mem_cons.mp member with rfl | member
        · exact .other ⟨fun _ among => absurd among List.not_mem_nil, nofun⟩
        · rcases Run.mem_followedBy member with ⟨_, defined, defines, member⟩
          cases List.mem_singleton.mp member
          have kept : defined.memory = evaluated.memory :=
            (congrArg (fun outcome => outcome.2.memory) defines).symm
          have split : program.globals = (earlier ++ [declaration]) ++ rest := by simp [all]
          apply Visits.globals split
          rw [kept, plain.lengths_of_initial among known ran, made, Global.lengths_append]

theorem visits_part (plain : program.ListsAreGlobal) (visits : program.Visits whole)
    (started : whole.machine.MakesNoList) (member : part ∈ whole.parts)
    (begins : whole.Begins part) (known : part.machine.MakesNoList) : program.Visits part := by
  cases visits with
  | start made =>
      rcases List.mem_cons.mp member with rfl | member
      · exact .globals (List.nil_append _).symm made
      · rcases Run.mem_followedBy member with ⟨_, _, _, member⟩
        rcases Run.mem_followedBy member with ⟨_, _, _, member⟩
        rcases Run.mem_followedBy member with ⟨function, _, _, member⟩
        cases List.mem_singleton.mp member
        rcases begins.found function [] rfl with ⟨position, name, _, found⟩
        have bare := known.lookupFunction found
        refine .other ⟨bare.terms, ?_⟩
        intro _ _ invokes
        cases invokes
        exact bare
  | globals all made => exact plain.visits_global all made started member
  | list all isList made =>
      cases List.mem_singleton.mp member
      exact .other ⟨plain.elements _ (by simp [all]) _ _ isList, nofun⟩
  | other bare => exact .other (bare.of_part member begins known)

/-- A moment of the run makes no list by itself, unless it evaluates the literal of the next
global that has one. -/
theorem lengths_of_touches (plain : program.ListsAreGlobal) (visits : program.Visits moment)
    (started : moment.machine.MakesNoList) {memory : Memory}
    (touches : moment.Touches before memory) :
    memory.lengths = before.memory.lengths ∨
    ∃ earlier declaration rest node elements, program.globals = earlier ++ declaration :: rest ∧
      declaration.list? = some (node, elements) ∧
      moment.activity = .evaluate (.list node elements) ∧
      before.memory.lengths = Global.lengths earlier ∧
      memory.lengths = Global.lengths (earlier ++ [declaration]) := by
  cases visits with
  | other bare => exact .inl (bare.touches touches)
  | start | globals => cases touches <;> contradiction
  | @list bound machine earlier rest declaration node elements all isList made =>
      cases touches with
      | native invokes => cases invokes
      | store executes => cases executes
      | @allocate _ _ values evaluates evaluated =>
          cases evaluates
          have listless : Moment.MakesNoList ⟨bound, .evaluateAll elements, machine⟩ :=
            ⟨plain.elements declaration (by simp [all]) node elements isList, nofun⟩
          have same : before.memory.lengths = machine.memory.lengths := by
            rw [← listless.lengths_after started]
            exact (congrArg (fun outcome => outcome.2.memory.lengths) evaluated).symm
          refine .inr ⟨earlier, declaration, rest, node, elements, all, isList, rfl,
            same.trans made, ?_⟩
          rw [Memory.lengths_allocate, same, made, Expr.length_of_evaluateAll evaluated,
            Global.lengths_append, Global.lengths_cons_of_list isList]
          rfl

private theorem visited_bodies (plain : program.ListsAreGlobal) (visits : program.Visits moment)
    (other : Program) (runs : moment.activity = .run other) : ∀ procedure ∈ other.procedures,
      ∀ term ∈ procedure.subterms, term.isList = false := by
  cases visits with
  | start made =>
      cases runs
      exact plain.bodies
  | globals | list => cases runs
  | other bare => exact bare.bodies runs

private theorem rules (plain : program.ListsAreGlobal) :
    Moment.Rules
      (fun machine => machine.MakesNoList ∧ machine.memory.lengths <+: program.lengths)
      program.Visits (fun earlier later => earlier.memory.lengths <+: later.memory.lengths) where
  refl _ := List.prefix_refl _
  trans := List.IsPrefix.trans
  begins visits started member begins _ known :=
    plain.visits_part visits started.1 member begins known.1
  change visits started _ known change := by
    have bare := known.1.change (plain.visited_bodies visits) change
    rcases change.touches with same | touches
    · rw [same]
      exact ⟨⟨bare, known.2⟩, List.prefix_refl _⟩
    · rcases plain.lengths_of_touches visits started.1 touches with same |
        ⟨earlier, declaration, rest, node, elements, all, isList, _, before, after⟩
      · rw [same]
        exact ⟨⟨bare, known.2⟩, List.prefix_refl _⟩
      · have split : program.globals = (earlier ++ [declaration]) ++ rest := by simp [all]
        rw [before, after]
        refine ⟨⟨bare, ?_⟩, ?_⟩
        · rw [Program.lengths, split, Global.lengths_append _ rest]
          exact List.prefix_append _ _
        · rw [Global.lengths_append]
          exact List.prefix_append _ _

private theorem obeys (plain : program.ListsAreGlobal) {bound : Nat} {machine : Machine}
    (known : machine.MakesNoList) (made : machine.memory.lengths = []) :
    Moment.Obeys (fun machine => machine.MakesNoList ∧ machine.memory.lengths <+: program.lengths)
      program.Visits (fun earlier later => earlier.memory.lengths <+: later.memory.lengths)
      ⟨bound, .run program, machine⟩ :=
  plain.rules.obeys _ (.start made) ⟨known, made ▸ List.nil_prefix⟩

end Program.ListsAreGlobal

/-! ## Where lists come from -/

private theorem Moment.Linked.covers_lists {whole : Moment} {machine last : Machine}
    {moments : List Moment} (linked : whole.Linked machine moments last)
    (keeps : ∀ before after, whole.Change before after →
      after.memory.lists.size = before.memory.lists.size)
    {index : Nat} (notBefore : machine.memory.lists.size ≤ index)
    (before : index < last.memory.lists.size) :
    ∃ part ∈ moments, part.machine.memory.lists.size ≤ index ∧
      index < part.after.memory.lists.size := by
  have kept : ∀ {first second}, whole.Changes first second →
      second.memory.lists.size = first.memory.lists.size := by
    intro first second changes
    induction changes with
    | refl => rfl
    | tail _ change induction => exact (keeps _ _ change).trans induction
  induction moments generalizing machine with
  | nil =>
      have same := kept linked
      omega
  | cons part rest induction =>
      have same := kept linked.1
      by_cases inPart : index < part.after.memory.lists.size
      · exact ⟨part, List.mem_cons_self, by omega, inPart⟩
      · rcases induction linked.2.2 (by omega) with ⟨later, member, within⟩
        exact ⟨later, List.mem_cons_of_mem _ member, within⟩

namespace Program.ListsAreGlobal

/-- A list that is new after a moment of the run was made by a literal. -/
private theorem exists_literal (plain : program.ListsAreGlobal) {index : Nat} (whole : Moment)
    (visits : ∀ inner, whole.Includes inner →
      program.Visits inner ∧ inner.machine.MakesNoList)
    (notBefore : whole.machine.memory.lists.size ≤ index)
    (before : index < whole.after.memory.lists.size) :
    ∃ inner node elements, whole.Includes inner ∧
      inner.activity = .evaluate (.list node elements) ∧
      inner.machine.memory.lists.size ≤ index ∧ index < inner.after.memory.lists.size := by
  induction whole using Moment.induction_on_parts with
  | step whole induction =>
      by_cases literal : ∃ node elements, whole.activity = .evaluate (.list node elements)
      · rcases literal with ⟨node, elements, evaluates⟩
        exact ⟨whole, node, elements, .self whole, evaluates, notBefore, before⟩
      · have keeps : ∀ first second, whole.Change first second →
            second.memory.lists.size = first.memory.lists.size := by
          intro first second change
          rw [← Memory.length_lengths, ← Memory.length_lengths]
          rcases change.touches with same | touches
          · rw [same]
          · rcases plain.lengths_of_touches (visits whole (.self whole)).1
              (visits whole (.self whole)).2 touches with same |
              ⟨_, _, _, node, elements, _, _, evaluates, _⟩
            · rw [same]
            · exact absurd ⟨node, elements, evaluates⟩ literal
        rcases whole.parts_linked.covers_lists keeps notBefore before with
          ⟨part, member, notBefore, before⟩
        rcases induction part member
          (fun inner includes => visits inner (.inside member includes)) notBefore before with
          ⟨inner, node, elements, includes, made⟩
        exact ⟨inner, node, elements, .inside member includes, made⟩

end Program.ListsAreGlobal

/-- The moment evaluates the list literal of the program with that number, which gives the list
with that number. -/
def Program.MakesList (program : Program) (moment : Moment) (index : Nat) : Prop :=
  ∃ node elements, program.lists[index]? = some (node, elements) ∧
    moment.activity = .evaluate (.list node elements) ∧
    moment.machine.memory.lists.size = index ∧
    ((Expr.list node elements).evaluate (Machine.invoke moment.bound)).run moment.machine =
      (.ok (.list index), moment.after)

namespace Program.ListsAreGlobal

/-- A list literal that the run evaluates is the next one of the program. It makes the list
with its number, or it fails and makes none. -/
theorem literal_outcome (plain : program.ListsAreGlobal) {moment : Moment} {node : Node}
    {elements : List Expr} (visits : program.Visits moment)
    (known : moment.machine.MakesNoList)
    (evaluates : moment.activity = .evaluate (.list node elements)) :
    program.lists[moment.machine.memory.lists.size]? = some (node, elements) ∧
    (program.MakesList moment moment.machine.memory.lists.size ∧
        moment.after.memory.lists.size = moment.machine.memory.lists.size + 1 ∨
      (∃ stop, ((Expr.list node elements).evaluate (Machine.invoke moment.bound)).run
        moment.machine = (.error stop, moment.after)) ∧
        moment.after.memory.lengths = moment.machine.memory.lengths) := by
  cases visits with
  | start | globals => cases evaluates
  | other bare =>
      have terms := bare.terms
      rw [evaluates] at terms
      cases terms _ List.mem_cons_self
  | @list bound machine earlier rest declaration node elements all isList made =>
      cases evaluates
      have bare := plain.elements declaration (by simp [all]) node elements isList
      have numbered : program.lists[machine.memory.lists.size]? = some (node, elements) := by
        have size := congrArg List.length made
        rw [Memory.length_lengths, Global.lengths, List.length_map] at size
        rw [size, Program.lists, all, Global.lists_append]
        simp [Global.lists, isList]
      refine ⟨numbered, ?_⟩
      cases ran : ((Expr.list node elements).evaluate (Machine.invoke bound)).run machine with
      | mk result after =>
          have ends : Moment.after ⟨bound, .evaluate (.list node elements), machine⟩ = after :=
            congrArg Prod.snd ran
          rw [ends]
          rcases Moment.list_outcome node bare known ran with ⟨rfl, grown⟩ | ⟨⟨stop, rfl⟩, same⟩
          · have size := congrArg List.length grown
            rw [List.length_append, Memory.length_lengths, Memory.length_lengths] at size
            refine .inl ⟨⟨node, elements, numbered, rfl, rfl, ?_⟩, size⟩
            rw [ends]
            exact ran
          · exact .inr ⟨⟨stop, rfl⟩, same⟩

end Program.ListsAreGlobal

/-! ## Runs -/

theorem Moment.after_mem_timeline (moment : Moment) : moment.after ∈ moment.timeline := by
  rw [Moment.timeline_eq]
  simp

/-- The lists of a run of a checked program, and its assignments. The lists are those of the
literals of globals that were evaluated, each with the number of its literal and no other; lists
are never lost, and have the lengths of their literals throughout. An assignment writes to the
cell of the variable that it found first, or to an element of the list that is in that cell once
all is evaluated; if it fails it writes nothing. -/
theorem Program.run_lists_assignments {program : Program} {annotations : Annotations}
    (accepted : program.check Context.standard = .ok annotations) (bound : Nat)
    (output : Output) :
    let run : Moment := ⟨bound, .run program, Machine.standard output⟩
    (∀ index, index < run.after.memory.lists.size ↔
      ∃ inner, run.Includes inner ∧ program.MakesList inner index) ∧
    (∀ inner node elements, run.Includes inner →
      inner.activity = .evaluate (.list node elements) →
      program.lists[inner.machine.memory.lists.size]? = some (node, elements) ∧
      (program.MakesList inner inner.machine.memory.lists.size ∧
          inner.after.memory.lists.size = inner.machine.memory.lists.size + 1 ∨
        (∃ stop, ((Expr.list node elements).evaluate (Machine.invoke inner.bound)).run
          inner.machine = (.error stop, inner.after)) ∧
          inner.after.memory.lengths = inner.machine.memory.lengths)) ∧
    (∀ machine ∈ run.timeline, machine.memory.lengths <+: program.lengths) ∧
    run.timeline.Pairwise (fun earlier later => earlier.memory.lengths <+: later.memory.lengths) ∧
    ∀ inner receiver value, run.Includes inner →
      inner.activity = .execute (.assignment receiver value) →
      ∃ result,
        ((Stmt.assignment receiver value).execute (Machine.invoke inner.bound) inner.bound).run
          inner.machine = (result, inner.after) ∧
        Stmt.Assigns inner.bound receiver value inner.machine result inner.after := by
  intro run
  have plain := Program.listsAreGlobal_of_typed (Program.typed_of_check accepted)
  have obeys : run.Obeys _ _ _ := plain.obeys (.standard output) rfl
  have within : ∀ {inner : Moment}, run.Includes inner →
      inner.machine ∈ run.timeline ∧ inner.after ∈ run.timeline := fun includes =>
    ⟨includes.timeline_infix.subset (Moment.machine_mem_timeline _),
      includes.timeline_infix.subset (Moment.after_mem_timeline _)⟩
  have visits : ∀ inner, run.Includes inner →
      program.Visits inner ∧ inner.machine.MakesNoList := fun inner includes =>
    ⟨obeys.inner inner includes, (obeys.course.kept _ (within includes).1).1⟩
  refine ⟨?_, ?_, fun machine member => (obeys.course.kept machine member).2,
    obeys.course.ordered, ?_⟩
  · intro index
    constructor
    · intro present
      rcases plain.exists_literal run visits (Nat.zero_le index) present with
        ⟨inner, node, elements, includes, evaluates, notBefore, before⟩
      rcases (plain.literal_outcome (visits inner includes).1 (visits inner includes).2
        evaluates).2 with ⟨makes, grown⟩ | ⟨_, same⟩
      · have number : inner.machine.memory.lists.size = index := by omega
        exact ⟨inner, includes, number ▸ makes⟩
      · have size := congrArg List.length same
        rw [Memory.length_lengths, Memory.length_lengths] at size
        omega
    · rintro ⟨inner, includes, node, elements, _, evaluates, rfl, ran⟩
      have grown : inner.after.memory.lists.size = inner.machine.memory.lists.size + 1 := by
        rcases (plain.literal_outcome (visits inner includes).1 (visits inner includes).2
          evaluates).2 with ⟨_, grown⟩ | ⟨⟨stop, failed⟩, _⟩
        · exact grown
        · rw [ran] at failed
          cases failed
      have later := (obeys.course.ends _ (within includes).2).length_le
      rw [Memory.length_lengths, Memory.length_lengths] at later
      omega
  · intro inner node elements includes evaluates
    exact plain.literal_outcome (visits inner includes).1 (visits inner includes).2 evaluates
  · intro inner receiver value includes executes
    have course := (Machine.session_rules.toRules.obeys run trivial
      (Machine.standard_sound output)).course
    have separate := (course.kept _ (within includes).1).1
    rcases inner with ⟨bound, activity, machine⟩
    cases executes
    refine ⟨_, rfl, Stmt.assigns_of_execute ?_ rfl⟩
    intro name target found
    rcases Scope.Tree.exists_of_lookup found with ⟨place, _, known⟩
    exact separate.stored place name target known

/-- The index of the assignment in `main` makes the variable hold another list, and that list is
written to. -/
theorem Program.run_lists_assignments_of_turn :
    ∃ program annotations,
      Program.checkText Context.standard
        ("LIST a: Integer = [1, 2]; LIST b: Integer = [3]; VAR x = a; " ++
          "FUN turn(): Integer DO x = b; RETURN 0; END " ++
          "FUN main(): Integer DO x[turn()] = 9; RETURN 4; END") = .ok (program, annotations) ∧
      program.lengths = [2, 1] ∧
      let run : Moment := ⟨4, .run program, Machine.standard (.empty none)⟩
      run.after.memory.lists = #[[.integer 1, .integer 2], [.integer 9]] ∧
      (∃ inner, run.Includes inner ∧ program.MakesList inner 1) ∧
      ∀ machine ∈ run.timeline, machine.memory.lengths <+: [2, 1] := by
  have computed : (match Program.checkText Context.standard
      ("LIST a: Integer = [1, 2]; LIST b: Integer = [3]; VAR x = a; " ++
        "FUN turn(): Integer DO x = b; RETURN 0; END " ++
        "FUN main(): Integer DO x[turn()] = 9; RETURN 4; END") with
      | .ok (program, _) =>
          decide (program.lengths = [2, 1] ∧
            ((program.run 4).run (Machine.standard (.empty none))).2.memory.lists =
              #[[.integer 1, .integer 2], [.integer 9]])
      | .error _ => false) = true := by decide +kernel
  split at computed
  · rename_i program annotations read
    rcases of_decide_eq_true computed with ⟨lengths, lists⟩
    have known := Program.run_lists_assignments (Program.check_of_checkText read) 4 (.empty none)
    have final : (Moment.after ⟨4, .run program, Machine.standard (.empty none)⟩).memory.lists =
      #[[.integer 1, .integer 2], [.integer 9]] := lists
    refine ⟨program, annotations, read, lengths, lists, (known.1 1).mp ?_, ?_⟩
    · rw [final]
      exact Nat.one_lt_two
    · rw [← lengths]
      exact known.2.2.1
  · cases computed

end Plc
