import Plc.Diagnostic
import Plc.Machine.Evaluate
import Plc.Typing.Check

/-! What can be done with a program text, and the commands that do it. -/

namespace Plc

/-- Reads and checks a program that may use what is in `context`. -/
def Program.checkText (context : Typing.Context) (text : String) :
    Except Diagnostic (Program × Typing.Annotations) := do
  let program ← Program.ofText text
  let annotations ← (program.check context).mapError .typing
  return (program, annotations)

def Program.runText (bound : Nat) (context : Typing.Context) (machine : Machine)
    (text : String) : Except Diagnostic Value × Machine :=
  match Program.checkText context text with
  | .error error => (.error error, machine)
  | .ok (program, _) =>
      let (result, machine) := (program.run bound).run machine
      (result.mapError Diagnostic.ofStop, machine)

/-! ## Commands -/

inductive Command where
  /-- Run a program and give the value of its `main` as the status. -/
  | run
  /-- Check a program without running it. -/
  | check
  /-- List the tokens of a program. -/
  | tokens
  deriving DecidableEq, Repr

namespace Command

def ofName? : String → Option Command
  | "run" => some .run
  | "check" => some .check
  | "tokens" => some .tokens
  | _ => none

/-- What a command leaves behind. -/
structure Outcome where
  status : Nat
  output : String
  errors : String
  deriving DecidableEq, Repr

/-- The status for the value of `main`: an integer is brought into the range
of 32 bits, of which the lowest eight remain. -/
def status : Value → Nat
  | .integer value => (max (-2147483648) (min 2147483647 value) % 256).toNat
  | _ => 0

example : status (.integer 300) = 44 ∧ status (.integer (-1)) = 255 := by decide

def onText (bound : Nat) (path : String) (text : String) (command : Command) : Outcome :=
  let report (output : String) : Except Diagnostic Nat → Outcome
    | .ok status => ⟨status, output, ""⟩
    | .error error => ⟨1, output, s!"{path}: " ++ error.render text ++ "\n"⟩
  match command with
  | .run =>
      let (result, machine) :=
        Program.runText bound .standard (.standard (.empty none)) text
      report machine.memory.output.text (result.map status)
  | .check =>
      report "" ((Program.checkText .standard text).map fun _ => 0)
  | .tokens =>
      match Token.scan text with
      | .error error => report "" (.error (.lexical error))
      | .ok found =>
          report (String.join (found.map fun token => token.display ++ "\n")) (.ok 0)

/-- Why a file could not be read. -/
inductive ReadFailure where
  | missing
  | directory
  | notUnicode
  | other (reason : String)
  deriving DecidableEq, Repr

def ReadFailure.message : ReadFailure → String
  | .missing => "No such file or directory (os error 2)"
  | .directory => "Is a directory (os error 21)"
  | .notUnicode => "stream did not contain valid UTF-8"
  | .other reason => reason

def ReadFailure.diagnostic (path : String) (failure : ReadFailure) : Diagnostic :=
  .internal [s!"Failed open source file {path}", failure.message]

def perform (bound : Nat) (path : String) (contents : Except ReadFailure String)
    (command : Command) : Outcome :=
  match contents with
  | .ok text => command.onText bound path text
  | .error failure =>
      ⟨1, "", "Failed run file: " ++ (failure.diagnostic path).message ++ "\n"⟩

end Command

end Plc
