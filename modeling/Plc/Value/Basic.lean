import Plc.Literal

/-! Values at run time. -/

namespace Plc

/-- A list is known by its number; all variables that hold the same list see
the same elements. -/
inductive Value where
  | nil
  | boolean (value : Bool)
  | integer (value : Int)
  | decimal (value : Decimal)
  | character (value : Char)
  | string (value : String)
  | list (id : Nat)
  deriving DecidableEq, Repr

instance : Inhabited Value := ⟨.nil⟩

inductive Value.Kind where
  | nil
  | boolean
  | integer
  | decimal
  | character
  | string
  | list
  deriving DecidableEq, Repr

def Value.Kind.name : Value.Kind → String
  | .nil => "Nil"
  | .boolean => "Boolean"
  | .integer => "Integer"
  | .decimal => "Decimal"
  | .character => "Character"
  | .string => "String"
  | .list => "List"

namespace Value

def kind : Value → Kind
  | .nil => .nil
  | .boolean _ => .boolean
  | .integer _ => .integer
  | .decimal _ => .decimal
  | .character _ => .character
  | .string _ => .string
  | .list _ => .list

def ofLiteral : Literal → Value
  | .nil => .nil
  | .boolean value => .boolean value
  | .integer value => .integer value
  | .decimal value => .decimal value
  | .character value => .character value
  | .string value => .string value

end Value

end Plc
