import Plc.Proofs.Soundness.Hosts

/-! Checked programs know their names. A program that was checked with the functions
of a host, and runs on a machine that has functions of the same names and arities,
never stops for want of a name. -/

namespace Plc

open Typing

/-- A text that is read and checked with the functions of a host runs, for however
long, on a machine with functions of the same names and arities, without a name that
is missing or defined twice. -/
theorem Program.run_nameless {text : String} {program : Program} {annotations : Annotations}
    (signatures : List Signature) (natives : List HostFunction)
    (same : ∀ name arity,
      (∃ signature ∈ signatures, signature.name = name ∧ signature.arity = arity) ↔
        ∃ native ∈ natives, native.name = name ∧ native.arity = arity)
    (nameless : ∀ native ∈ natives, native.behaviour.Nameless)
    (accepted : Program.checkText (Context.standard.withHosts signatures) text =
      .ok (program, annotations))
    (bound : Nat) (output : Output) (error : RuntimeError)
    (failed : ((program.run bound).run ((Machine.standard output).withHosts natives)).1 =
      .error (.fault error)) :
    error.isNaming = false := by
  let machine := (Machine.standard output).withHosts natives
  let setting : Setting := ⟨program, annotations, ⟨bound, .run program, machine⟩, False⟩
  have lenient : ¬setting.strict := fun impossible => impossible
  have contextHosts := Context.Hosts.standard.withHosts signatures
  have machineHosts := (Machine.Hosts.standard output).withHosts nameless
  have sameKeys : ∀ key : String × Nat,
      key ∈ (signatures.map fun signature => (signature.name, signature.arity)).reverse ++
          [("print", 1)] ↔
        key ∈ (natives.map fun native => (native.name, native.arity)).reverse ++
          [("print", 1)] := by
    rintro ⟨name, arity⟩
    have both := same name arity
    simp only [List.mem_append, List.mem_reverse, List.mem_map, Prod.mk.injEq]
    rw [both]
  have realises : ∀ name arity signature function,
      (Context.standard.withHosts signatures).lookupFunction name arity = some signature →
      (machine.scopes.scope Machine.global).lookupFunction name arity = some function →
        setting.Realises (fun _ => False) function signature := by
    intro name arity signature function _ looked
    rcases machineHosts.natives name arity function looked with ⟨behaviour, callable, nameless⟩
    refine .native callable ?_ fun strict => absurd strict lenient
    exact fun arguments memory error after failed =>
      ⟨nameless arguments memory error after failed, fun strict => absurd strict lenient⟩
  have starts := Setting.starts_of_hosts contextHosts machineHosts sameKeys realises
  have typed := Program.typed_of_check (Program.check_of_checkText accepted)
  have fits : setting.ProgramFits := ⟨.of_lenient lenient, fun strict => absurd strict lenient,
    fun _ _ _ _ strict => absurd strict lenient, fun strict => absurd strict lenient⟩
  have passes := setting.program_passes typed fits starts rfl
  cases ran : (program.run bound).run machine with
  | mk result after =>
      rw [ran] at failed
      cases failed
      exact ((passes.2.stop ran).1 error rfl).1

/-- A program may still fail for other reasons, here after a call of the host. -/
theorem Program.run_nameless_of_division :
    let echo : Signature := ⟨"echo", "echo", [.integer], .integer⟩
    let native : HostFunction := ⟨"echo", 1, fun arguments => return arguments.headD .nil⟩
    ∃ program annotations,
      Program.checkText (Context.standard.withHosts [echo])
        "VAR x = 0; FUN main(): Integer DO RETURN 1 / echo(x); END" =
          .ok (program, annotations) ∧
      ((program.run 2).run ((Machine.standard (.empty none)).withHosts [native])).1 =
        .error (.fault .divideByZero) ∧
      RuntimeError.divideByZero.isNaming = false := by
  intro echo native
  have ran : (match Program.checkText (Context.standard.withHosts [echo])
      "VAR x = 0; FUN main(): Integer DO RETURN 1 / echo(x); END" with
      | .ok (program, _) =>
          match ((program.run 2).run ((Machine.standard (.empty none)).withHosts [native])).1 with
          | .error (.fault .divideByZero) => true
          | _ => false
      | .error _ => false) = true := by decide +kernel
  split at ran
  · rename_i program annotations accepted
    split at ran
    case h_2 => cases ran
    rename_i failed
    refine ⟨program, annotations, accepted, failed, Program.run_nameless [echo] [native]
      ?_ ?_ accepted 2 (.empty none) .divideByZero failed⟩
    · intro name arity
      simp [echo, native, Signature.arity]
    · intro other member arguments memory error after stopped
      cases List.mem_singleton.mp member
      cases stopped
  · cases ran

end Plc
