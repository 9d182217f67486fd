import Plc.Command

/-! The command line. -/

namespace Plc.Main

/-- More nested calls, and more rounds of a loop, than any run gets through. -/
def bound : Nat := Nat.pow 2 62

def usage : String :=
  "Usage: plc [-v] run|check|tokens PATH\n"

def readText (path : String) : IO (Except Command.ReadFailure String) := do
  try
    let bytes ← IO.FS.readBinFile path
    match String.fromUTF8? bytes with
    | some text => return .ok text
    | none => return .error .notUnicode
  catch error =>
    match error with
    | .noFileOrDirectory .. => return .error .missing
    | .inappropriateType .. => return .error .directory
    | other => return .error (.other (toString other))

end Plc.Main

open Plc in
def main (arguments : List String) : IO UInt32 := do
  let words := arguments.filter fun word => word != "-v" && word != "--verbose"
  match words with
  | [name, path] =>
      match Command.ofName? name with
      | some command =>
          let outcome := command.perform Main.bound path (← Main.readText path)
          IO.print outcome.output
          IO.eprint outcome.errors
          return outcome.status.toUInt32
      | none =>
          IO.eprint Main.usage
          return 2
  | _ =>
      IO.eprint Main.usage
      return 2
