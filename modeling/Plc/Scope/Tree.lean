import Plc.Scope.Basic

/-! Scopes nested in one another. A scope is created inside an existing one
and stays there; a name is looked up from the inside outward. -/

namespace Plc.Scope

/-- A scope and the positions of those around it, innermost first. -/
structure Place (Variable Function : Type) where
  scope : Scope Variable Function
  outer : List Nat

/-- All scopes, each known by its position. -/
structure Tree (Variable Function : Type) where
  places : Array (Place Variable Function)

namespace Tree

def root : Tree Variable Function := ⟨#[⟨Scope.empty, []⟩]⟩

def scope (tree : Tree Variable Function) (position : Nat) : Scope Variable Function :=
  match tree.places[position]? with
  | some place => place.scope
  | none => Scope.empty

def outer (tree : Tree Variable Function) (position : Nat) : List Nat :=
  match tree.places[position]? with
  | some place => place.outer
  | none => []

def path (tree : Tree Variable Function) (position : Nat) : List Nat :=
  position :: tree.outer position

def parent? (tree : Tree Variable Function) (position : Nat) : Option Nat :=
  (tree.outer position).head?

def child (tree : Tree Variable Function) (position : Nat) :
    Nat × Tree Variable Function :=
  (tree.places.size, ⟨tree.places.push ⟨Scope.empty, tree.path position⟩⟩)

def lookup (tree : Tree Variable Function) (position : Nat) (name : String) :
    Option Variable :=
  (tree.path position).findSome? fun place => (tree.scope place).lookup name

def lookupFunction (tree : Tree Variable Function) (position : Nat) (name : String)
    (arity : Nat) : Option Function :=
  (tree.path position).findSome? fun place => (tree.scope place).lookupFunction name arity

def setScope (tree : Tree Variable Function) (position : Nat)
    (scope : Scope Variable Function) : Tree Variable Function :=
  ⟨tree.places.modify position fun place => { place with scope }⟩

/-- Defines a variable in the scope at `position`. Says whether the name was
free there; if it was not, nothing changes. -/
def defineVariable (tree : Tree Variable Function) (position : Nat) (name : String)
    (binding : Variable) : Bool × Tree Variable Function :=
  match (tree.scope position).defineVariable? name binding with
  | some scope => (true, tree.setScope position scope)
  | none => (false, tree)

/-- Defines a function in the scope at `position`, in the same way. -/
def defineFunction (tree : Tree Variable Function) (position : Nat) (name : String)
    (arity : Nat) (binding : Function) : Bool × Tree Variable Function :=
  match (tree.scope position).defineFunction? name arity binding with
  | some scope => (true, tree.setScope position scope)
  | none => (false, tree)

end Tree

end Plc.Scope
