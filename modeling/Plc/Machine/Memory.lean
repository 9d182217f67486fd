import Plc.Value.Error
import Plc.Value.Lists

/-! What native functions can reach: the lists of a run and its output. -/

namespace Plc

/-- Text that was written, in pieces, last one first. When `room` is given,
only that many more newlines are accepted; with no room left the output is
closed. -/
structure Output where
  written : List String
  room : Option Nat
  deriving Repr

namespace Output

def empty (room : Option Nat) : Output := ⟨[], room⟩

def text (output : Output) : String :=
  String.join output.written.reverse

/-- Accepts a piece as a whole, or refuses it because the output is closed. -/
def write? (output : Output) (piece : String) : Option Output :=
  if piece.isEmpty then
    some output
  else if output.room = some 0 then
    none
  else
    some ⟨piece :: output.written,
      output.room.map (· - piece.toList.count '\n')⟩

/-- Writes pieces up to the first that is refused. Says whether all were
accepted. -/
def writeAll (output : Output) : List String → Bool × Output
  | [] => (true, output)
  | piece :: rest =>
      match output.write? piece with
      | some output => output.writeAll rest
      | none => (false, output)

end Output

structure Memory where
  lists : Lists
  output : Output

namespace Memory

def allocate (memory : Memory) (elements : List Value) : Nat × Memory :=
  (memory.lists.size, { memory with lists := memory.lists.push elements })

def setElement (memory : Memory) (id index : Nat) (value : Value) : Memory :=
  { memory with lists := memory.lists.modify id (·.set index value) }

end Memory

/-- The behaviour of a function of the host. It sees its arguments, the lists
and the output, and nothing else of the machine. What it remembers from call to
call is in the memory as well: in a list that it makes itself and knows again by
its first element, and that no value of the program refers to. -/
abbrev Native := List Value → ExceptT Stop (StateM Memory) Value

namespace Native

def newList (elements : List Value) : ExceptT Stop (StateM Memory) Value :=
  ExceptT.mk fun memory =>
    let (id, memory) := memory.allocate elements
    (.ok (.list id), memory)

/-- Writes pieces of text; fails when the output is closed. -/
def write (pieces : List String) : ExceptT Stop (StateM Memory) Unit :=
  ExceptT.mk fun memory =>
    let (accepted, output) := memory.output.writeAll pieces
    let result := if accepted then .ok () else .error (.fault (.output "closed"))
    (result, { memory with output })

def print : Native := fun arguments => do
  let value := arguments.headD .nil
  match value.pieces? (← get).lists with
  | none => throw .unfinished
  | some pieces => write (pieces ++ ["\n"])
  return .nil

end Native

end Plc
