import Plc.Machine.Evaluate

/-! Sessions: one machine that serves requests in turn. What a request
defined or changed stays for the next ones, also when it failed. -/

namespace Plc

inductive Request where
  /-- Run a program beside what is already defined. -/
  | run (program : Program)
  /-- Call a function that is already defined. -/
  | call (name : String) (arguments : List Value)
  /-- Make a function of the host known. -/
  | native (name : String) (arity : Nat) (behaviour : Native)

namespace Request

def perform (bound : Nat) : Request → Run Value
  | .run program => program.run bound
  | .call name arguments => Machine.call bound name arguments
  | .native name arity behaviour => do
      modify (·.defineNative name arity behaviour)
      return .nil

end Request

namespace Machine

/-- Serves one request: what it gives, and the machine afterwards. -/
def serve (bound : Nat) (machine : Machine) (request : Request) :
    Except Stop Value × Machine :=
  (request.perform bound).run machine

def afterSession (bound : Nat) (machine : Machine) (requests : List Request) : Machine :=
  requests.foldl (fun machine request => (machine.serve bound request).2) machine

end Machine

end Plc
