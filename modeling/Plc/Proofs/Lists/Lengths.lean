import Plc.Proofs.Machine.Scopes
import Plc.Proofs.Machine.Terms
import Plc.Proofs.Machine.Timeline
import Plc.Proofs.Soundness.Hosts

/-! The lengths of lists. An assignment to an element does not change them and printing does
not either, so where no list is written down all lists keep their lengths and no list is
made. -/

namespace Plc

def Memory.lengths (memory : Memory) : List Nat :=
  memory.lists.toList.map List.length

def Expr.isList : Expr → Bool
  | .list _ _ => true
  | _ => false

namespace Memory

theorem length_lengths (memory : Memory) : memory.lengths.length = memory.lists.size := by
  simp [lengths]

theorem lengths_setElement (memory : Memory) (id index : Nat) (value : Value) :
    (memory.setElement id index value).lengths = memory.lengths := by
  apply List.ext_getElem?
  intro number
  simp only [lengths, setElement, List.getElem?_map, Array.getElem?_toList,
    Array.getElem?_modify]
  split
  · simp only [Option.map_map]
    congr 1
    funext elements
    simp
  · rfl

theorem lengths_allocate (memory : Memory) (elements : List Value) :
    (memory.allocate elements).2.lengths = memory.lengths ++ [elements.length] := by
  simp [lengths, allocate]

theorem lengths_print (memory : Memory) (arguments : List Value) :
    ((Native.print arguments).run memory).2.lengths = memory.lengths := by
  cases ran : (Native.print arguments).run memory with
  | mk result after => simp [lengths, (Native.print_result ran).1]

end Memory

theorem Moment.Change.touches {moment : Moment} {before after : Machine}
    (change : moment.Change before after) :
    after.memory = before.memory ∨ moment.Touches before after.memory := by
  cases change with
  | memory touches => exact .inr touches
  | define defines =>
      exact .inl (by simp [Machine.defineVariable])
  | _ => exact .inl rfl

/-! ## Where no list is written down -/

/-- If the function is one of the host, it prints; if it has a body, no list is in it. -/
structure Machine.Function.MakesNoList (function : Machine.Function) : Prop where
  terms : ∀ term ∈ function.terms, term.isList = false
  native : ∀ behaviour, function.callable = .native behaviour → behaviour = Native.print

def Machine.MakesNoList (machine : Machine) : Prop :=
  ∀ place name arity function,
    (machine.scopes.scope place).lookupFunction name arity = some function → function.MakesNoList

/-- No list is in what the moment may come to by itself. -/
structure Moment.MakesNoList (moment : Moment) : Prop where
  terms : ∀ term ∈ moment.activity.terms, term.isList = false
  calls : ∀ function arguments, moment.activity = .invoke function arguments →
    function.MakesNoList

namespace Machine.MakesNoList

variable {moment whole part : Moment} {machine before after : Machine}

theorem lookupFunction (bare : machine.MakesNoList) {position arity : Nat} {name : String}
    {function : Machine.Function}
    (found : machine.scopes.lookupFunction position name arity = some function) :
    function.MakesNoList := by
  rcases Scope.Tree.exists_of_lookupFunction found with ⟨place, _, known⟩
  exact bare place name arity function known

theorem standard (output : Output) : (Machine.standard output).MakesNoList := by
  intro place name arity function known
  rcases lookupFunction_defineFunction known with old | ⟨_, rfl⟩
  · cases place <;> cases old
  · refine ⟨fun _ member => absurd member List.not_mem_nil, ?_⟩
    intro behaviour callable
    cases callable
    rfl

theorem change (bare : before.MakesNoList)
    (bodies : ∀ program, moment.activity = .run program → ∀ procedure ∈ program.procedures,
      ∀ term ∈ procedure.subterms, term.isList = false)
    (change : moment.Change before after) : after.MakesNoList := by
  intro place name arity function known
  rcases change.functions with ⟨program, procedure, runs, member, rfl⟩ | same
  · rcases lookupFunction_defineFunction known with old | ⟨_, rfl⟩
    · exact bare place name arity function old
    · exact ⟨bodies program runs procedure member, nofun⟩
  · rw [same] at known
    exact bare place name arity function known

end Machine.MakesNoList

namespace Moment.MakesNoList

variable {moment whole part : Moment} {before after : Machine}

theorem of_part (bare : whole.MakesNoList) (member : part ∈ whole.parts)
    (begins : whole.Begins part) (known : part.machine.MakesNoList) : part.MakesNoList := by
  have calls : ∀ function arguments, part.activity = .invoke function arguments →
      function.MakesNoList := by
    intro function arguments invokes
    rcases begins.found function arguments invokes with ⟨position, name, _, found⟩
    exact known.lookupFunction found
  refine ⟨?_, calls⟩
  rcases terms_of_part member with ⟨function, arguments, invokes⟩ | terms
  · rw [invokes]
    exact (calls function arguments invokes).terms
  · exact fun term among => bare.terms term (terms among)

theorem touches (bare : moment.MakesNoList) {memory : Memory}
    (touches : moment.Touches before memory) : memory.lengths = before.memory.lengths := by
  cases touches with
  | native invokes callable =>
      rw [(bare.calls _ _ invokes).native _ callable]
      exact before.memory.lengths_print _
  | allocate evaluates evaluated =>
      have listed := bare.terms
      rw [evaluates] at listed
      cases listed _ List.mem_cons_self
  | store executes id index written => exact before.memory.lengths_setElement id index written

theorem change (bare : moment.MakesNoList) (change : moment.Change before after) :
    after.memory.lengths = before.memory.lengths := by
  rcases change.touches with same | touches
  · rw [same]
  · exact bare.touches touches

theorem bodies (bare : moment.MakesNoList) {program : Program}
    (runs : moment.activity = .run program) : ∀ procedure ∈ program.procedures,
      ∀ term ∈ procedure.subterms, term.isList = false := by
  intro procedure member term among
  have terms := bare.terms
  rw [runs] at terms
  apply terms term
  exact List.mem_append_right _ (List.mem_flatMap.mpr ⟨procedure, member, among⟩)

theorem rules : Rules Machine.MakesNoList MakesNoList
    (fun earlier later => later.memory.lengths = earlier.memory.lengths) where
  refl _ := rfl
  trans first second := second.trans first
  begins bare _ member begins _ known := bare.of_part member begins known
  change bare _ _ known change :=
    ⟨known.change (fun _ runs => bare.bodies runs) change, bare.change change⟩

/-- Such a moment makes no list, and every list keeps its length. -/
theorem lengths_after (bare : moment.MakesNoList) (known : moment.machine.MakesNoList) :
    moment.after.memory.lengths = moment.machine.memory.lengths :=
  (rules.obeys moment bare known).course.across

end Moment.MakesNoList

end Plc
