import Plc.Scope.Basic
import Plc.Ty

/-! What names stand for while a program is checked. -/

namespace Plc

/-- What a function takes and gives. `externalName` is its name for the host. -/
structure Signature where
  name : String
  externalName : String
  parameters : List Ty
  result : Ty
  deriving DecidableEq, Repr

namespace Signature

def arity (signature : Signature) : Nat :=
  signature.parameters.length

def print : Signature := ⟨"print", "System.out.println", [.any], .nil⟩

end Signature

namespace Typing

structure Variable where
  name : String
  type : Ty
  isMutable : Bool
  deriving DecidableEq, Repr

/-- The scope of the innermost block, and those around it. -/
structure Context where
  inner : Scope Variable Signature
  outer : List (Scope Variable Signature)

namespace Context

def empty : Context := ⟨Scope.empty, []⟩

def nest (context : Context) : Context :=
  ⟨Scope.empty, context.inner :: context.outer⟩

def scopes (context : Context) : List (Scope Variable Signature) :=
  context.inner :: context.outer

def lookup (context : Context) (name : String) : Option Variable :=
  context.scopes.findSome? (·.lookup name)

def lookupFunction (context : Context) (name : String) (arity : Nat) : Option Signature :=
  context.scopes.findSome? (·.lookupFunction name arity)

/-- Adds a variable to the innermost block, unless it has one of that name. -/
def declare? (context : Context) (declared : Variable) : Option Context :=
  (context.inner.defineVariable? declared.name declared).map ({ context with inner := · })

def declareFunction? (context : Context) (signature : Signature) : Option Context :=
  (context.inner.defineFunction? signature.name signature.arity signature).map
    ({ context with inner := · })

/-- Adds a function of the host; the first of a name and arity stays. -/
def withHost (context : Context) (signature : Signature) : Context :=
  (context.declareFunction? signature).getD context

def standard : Context :=
  empty.withHost .print

end Context

end Typing

end Plc
