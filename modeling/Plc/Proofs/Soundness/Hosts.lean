import Plc.Proofs.Soundness.Program

/-! Functions of the host. A context that has their signatures and a machine that has
their behaviours are where a run can start. -/

namespace Plc

open Typing

structure HostFunction where
  name : String
  arity : Nat
  behaviour : Native

def Native.Nameless (behaviour : Native) : Prop :=
  ∀ arguments memory error after,
    (behaviour arguments).run memory = (.error (.fault error), after) → error.isNaming = false

def Typing.Context.withHosts (context : Context) (signatures : List Signature) : Context :=
  signatures.foldl Context.withHost context

def Machine.withHosts (machine : Machine) (natives : List HostFunction) : Machine :=
  natives.foldl (fun machine native =>
    machine.defineNative native.name native.arity native.behaviour) machine

/-! ## Contexts of hosts -/

/-- Nothing is known but functions with these names and arities. -/
structure Typing.Context.Hosts (context : Context) (keys : List (String × Nat)) : Prop where
  outermost : context.outer = []
  noVariables : ∀ name, context.lookup name = none
  arity : ∀ name arity signature, context.lookupFunction name arity = some signature →
    signature.arity = arity
  functions : ∀ name arity,
    (context.lookupFunction name arity).isSome ↔ (name, arity) ∈ keys

namespace Typing.Context.Hosts

variable {context : Context} {keys : List (String × Nat)}

theorem empty : Hosts Context.empty [] where
  outermost := rfl
  noVariables _ := rfl
  arity _ _ _ known := by cases known
  functions name arity := by
    have unknown : Context.empty.lookupFunction name arity = none := rfl
    simp [unknown]

theorem withHost (hosts : Hosts context keys) (signature : Signature) :
    Hosts (context.withHost signature) ((signature.name, signature.arity) :: keys) := by
  cases declares : context.declareFunction? signature with
  | none =>
      have taken : (context.lookupFunction signature.name signature.arity).isSome := by
        rw [← inner_lookupFunction_eq hosts.outermost]
        exact (Scope.defineFunction?_eq_none_iff _ _ _ _).mp (Option.map_eq_none_iff.mp declares)
      have same : context.withHost signature = context := by
        rw [Context.withHost, declares]
        rfl
      rw [same]
      refine ⟨hosts.outermost, hosts.noVariables, hosts.arity, fun name arity => ?_⟩
      rw [hosts.functions, List.mem_cons]
      constructor
      · exact .inr
      · rintro (new | old)
        · cases new
          exact (hosts.functions _ _).mp taken
        · exact old
  | some extended =>
      have same : context.withHost signature = extended := by
        rw [Context.withHost, declares]
        rfl
      rw [same]
      refine ⟨(outer_of_declareFunction? declares).trans hosts.outermost, fun name => ?_,
        fun name arity found known => ?_, fun name arity => ?_⟩
      · rw [lookup_of_declareFunction? declares]
        exact hosts.noVariables name
      · rw [lookupFunction_of_declareFunction? declares] at known
        split at known
        · rename_i new
          cases known
          cases new
          rfl
        · exact hosts.arity name arity found known
      · rw [lookupFunction_of_declareFunction? declares, List.mem_cons]
        split
        · rename_i new
          simp [new]
        · rename_i old
          rw [hosts.functions]
          simp [old]

theorem withHosts (hosts : Hosts context keys) (signatures : List Signature) :
    Hosts (context.withHosts signatures)
      ((signatures.map fun signature => (signature.name, signature.arity)).reverse ++ keys) := by
  induction signatures generalizing context keys with
  | nil => exact hosts
  | cons head tail induction =>
      have rest := induction (hosts.withHost head)
      simpa [Context.withHosts] using rest

end Typing.Context.Hosts

/-! ## Machines of hosts -/

/-- Nothing is defined but functions of the host with these names and arities, and there
are no lists. -/
structure Machine.Hosts (machine : Machine) (keys : List (String × Nat)) : Prop where
  current : machine.current = Machine.global
  cells : machine.cells = #[]
  lists : machine.memory.lists = #[]
  present : Machine.global < machine.scopes.places.size
  outermost : machine.scopes.outer Machine.global = []
  noVariables : ∀ name, (machine.scopes.scope Machine.global).lookup name = none
  functions : ∀ name arity,
    ((machine.scopes.scope Machine.global).lookupFunction name arity).isSome ↔
      (name, arity) ∈ keys
  natives : ∀ name arity function,
    (machine.scopes.scope Machine.global).lookupFunction name arity = some function →
      ∃ behaviour, function.callable = .native behaviour ∧ behaviour.Nameless

namespace Machine.Hosts

variable {machine : Machine} {keys : List (String × Nat)}

theorem empty (output : Output) : Hosts (Machine.empty output) [] where
  current := rfl
  cells := rfl
  lists := rfl
  present := Nat.zero_lt_one
  outermost := rfl
  noVariables _ := rfl
  functions name arity := by
    have unknown : ((Machine.empty output).scopes.scope Machine.global).lookupFunction name
      arity = none := rfl
    simp [unknown]
  natives _ _ _ known := by cases known

theorem defineNative (hosts : Hosts machine keys) (native : HostFunction)
    (nameless : native.behaviour.Nameless) :
    Hosts (machine.defineNative native.name native.arity native.behaviour)
      ((native.name, native.arity) :: keys) := by
  let function : Machine.Function :=
    ⟨Machine.untyped native.name native.arity, .native native.behaviour⟩
  have arity : function.signature.arity = native.arity := by
    simp [function, Signature.arity, Machine.untyped]
  cases looked : (machine.scopes.scope Machine.global).lookupFunction function.signature.name
    function.signature.arity with
  | some taken =>
      have same : machine.defineNative native.name native.arity native.behaviour = machine := by
        simp only [function] at looked
        simp [Machine.defineNative, Machine.defineFunction, Scope.Tree.defineFunction,
          Scope.defineFunction?, looked]
      rw [same]
      have member : (native.name, native.arity) ∈ keys := by
        rw [arity] at looked
        apply (hosts.functions native.name native.arity).mp
        exact Option.isSome_of_eq_some looked
      refine { hosts with functions := fun name otherArity => ?_ }
      rw [hosts.functions, List.mem_cons]
      constructor
      · exact .inr
      · rintro (new | old)
        · cases new
          exact member
        · exact old
  | none =>
      rcases Machine.defineFunction_of_free looked with ⟨scope, defined, grown⟩
      have same : machine.defineNative native.name native.arity native.behaviour =
          { machine with scopes := machine.scopes.setScope Machine.global scope } :=
        congrArg Prod.snd grown
      rw [arity] at defined
      rw [same]
      have lookup := Scope.Tree.lookupFunction_setScope_definedFunction defined hosts.present
      constructor
      · exact hosts.current
      · exact hosts.cells
      · exact hosts.lists
      · show Machine.global < (machine.scopes.setScope Machine.global scope).places.size
        rw [Scope.Tree.size_setScope]
        exact hosts.present
      · exact (Scope.Tree.outer_setScope _ _ _ _).trans hosts.outermost
      · intro name
        exact (Scope.Tree.lookup_setScope_definedFunction defined hosts.present name).trans
          (hosts.noVariables name)
      · intro name arity
        rw [lookup, List.mem_cons]
        split
        · rename_i new
          exact ⟨fun _ => .inl new.2, fun _ => rfl⟩
        · rename_i old
          rw [hosts.functions]
          constructor
          · exact .inr
          · rintro (new | member)
            · exact absurd ⟨rfl, new⟩ old
            · exact member
      · intro name arity found known
        rw [lookup] at known
        split at known
        · cases known
          exact ⟨native.behaviour, rfl, nameless⟩
        · exact hosts.natives name arity found known

theorem withHosts (hosts : Hosts machine keys) {natives : List HostFunction}
    (nameless : ∀ native ∈ natives, native.behaviour.Nameless) :
    Hosts (machine.withHosts natives)
      ((natives.map fun native => (native.name, native.arity)).reverse ++ keys) := by
  induction natives generalizing machine keys with
  | nil => exact hosts
  | cons head tail induction =>
      have rest := induction (hosts.defineNative head (nameless head List.mem_cons_self))
        fun native member => nameless native (List.mem_cons_of_mem _ member)
      simpa [Machine.withHosts] using rest

end Machine.Hosts

/-- Printing changes no list and gives nothing, and fails only when the output is closed
or a list has no end. -/
theorem Native.print_result {arguments : List Value} {memory after : Memory}
    {result : Except Stop Value} (ran : (Native.print arguments).run memory = (result, after)) :
    after.lists = memory.lists ∧ (result = .ok .nil ∨ result = .error .unfinished ∨
      result = .error (.fault (.output "closed"))) := by
  have opened : ∀ next : Memory → ExceptT Stop (StateM Memory) Value,
      (get >>= next).run memory = (next memory).run memory := fun _ => rfl
  rw [Native.print, opened] at ran
  cases listed : (arguments.headD .nil).pieces? memory.lists with
  | none =>
      rw [listed] at ran
      cases ran
      exact ⟨rfl, .inr (.inl rfl)⟩
  | some pieces =>
      have followed : ∀ action : ExceptT Stop (StateM Memory) Unit,
          (action >>= fun _ => pure Value.nil).run memory =
            (ExceptT.bindCont (fun _ => pure .nil) (action.run memory).1 :
              StateM Memory (Except Stop Value)) (action.run memory).2 := fun _ => rfl
      have written : (Native.write (pieces ++ ["\n"])).run memory =
          (if (memory.output.writeAll (pieces ++ ["\n"])).1 then .ok ()
            else .error (.fault (.output "closed")),
          { memory with output := (memory.output.writeAll (pieces ++ ["\n"])).2 }) := rfl
      rw [listed] at ran
      dsimp only at ran
      rw [followed, written] at ran
      cases accepted : (memory.output.writeAll (pieces ++ ["\n"])).1 with
      | true =>
          rw [accepted] at ran
          cases ran
          exact ⟨rfl, .inl rfl⟩
      | false =>
          rw [accepted] at ran
          cases ran
          exact ⟨rfl, .inr (.inr rfl)⟩

theorem Native.print_nameless : Native.print.Nameless := by
  intro arguments memory error after stopped
  rcases (Native.print_result stopped).2 with gives | unfinished | closed
  · cases gives
  · cases unfinished
  · cases closed
    rfl

theorem Typing.Context.Hosts.standard : Context.standard.Hosts [("print", 1)] :=
  Context.Hosts.empty.withHost .print

theorem Machine.Hosts.standard (output : Output) :
    (Machine.standard output).Hosts [("print", 1)] :=
  (Machine.Hosts.empty output).defineNative ⟨"print", 1, .print⟩ Native.print_nameless

/-! ## Starting a run -/

/-- A run starts at a machine that has the functions its context has. -/
theorem Setting.starts_of_hosts {setting : Setting} {context : Context} {machine : Machine}
    {contextKeys machineKeys : List (String × Nat)}
    (contextHosts : context.Hosts contextKeys) (machineHosts : machine.Hosts machineKeys)
    (same : ∀ key, key ∈ contextKeys ↔ key ∈ machineKeys)
    (realises : ∀ name arity signature function,
      context.lookupFunction name arity = some signature →
      (machine.scopes.scope Machine.global).lookupFunction name arity = some function →
        setting.Realises (fun _ => False) function signature) :
    setting.Starts context machine := by
  have path : machine.scopes.path Machine.global = [Machine.global] := by
    rw [Scope.Tree.path, machineHosts.outermost]
  have lookupFunction : ∀ name arity, machine.scopes.lookupFunction Machine.global name arity =
      (machine.scopes.scope Machine.global).lookupFunction name arity := by
    intro name arity
    rw [Scope.Tree.lookupFunction_eq, machineHosts.outermost]
    cases (machine.scopes.scope Machine.global).lookupFunction name arity <;> rfl
  have agrees : setting.Agrees (fun _ => False) context machine Machine.global := by
    constructor
    · intro place member
      rw [path] at member
      rw [List.mem_singleton.mp member]
      exact machineHosts.present
    · intro name found known
      rw [contextHosts.noVariables] at known
      cases known
    · intro name arity signature known
      refine ⟨contextHosts.arity name arity signature known, ?_⟩
      have present := (machineHosts.functions name arity).mpr
        ((same _).mp ((contextHosts.functions name arity).mp (Option.isSome_of_eq_some known)))
      rcases Option.isSome_iff_exists.mp present with ⟨function, looked⟩
      exact ⟨function, (lookupFunction name arity).trans looked,
        realises name arity signature function known looked⟩
    · intro name defined
      rw [machineHosts.noVariables] at defined
      cases defined
  have store : setting.StoreFits machine := by
    constructor
    · intro _ cell _ _ present
      rw [machineHosts.cells] at present
      cases present
    · intro _ id _ _ value member
      rw [machineHosts.lists] at member
      cases member
  refine ⟨⟨⟨store, machineHosts.present, machineHosts.outermost, fun _ impossible =>
    impossible.elim⟩, ?_⟩, machineHosts.current, contextHosts.outermost, ?_,
    machineHosts.lists⟩
  · rw [machineHosts.current]
    exact agrees
  · intro name arity present
    rw [Context.inner_lookupFunction_eq contextHosts.outermost]
    exact (contextHosts.functions name arity).mpr
      ((same _).mpr ((machineHosts.functions name arity).mp present))

end Plc
