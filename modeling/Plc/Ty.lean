/-! Static types. -/

namespace Plc

/-- `any` holds every value, `comparable` those that have an order or a
spelling of their own: numbers, characters and strings. -/
inductive Ty where
  | any
  | nil
  | comparable
  | boolean
  | integer
  | decimal
  | character
  | string
  deriving DecidableEq, Repr

namespace Ty

def name : Ty → String
  | .any => "Any"
  | .nil => "Nil"
  | .comparable => "Comparable"
  | .boolean => "Boolean"
  | .integer => "Integer"
  | .decimal => "Decimal"
  | .character => "Character"
  | .string => "String"

def all : List Ty :=
  [.any, .nil, .comparable, .boolean, .integer, .decimal, .character, .string]

def ofName? (name : String) : Option Ty :=
  all.find? (·.name == name)

/-- The name the type has for the host. -/
def externalName : Ty → String
  | .any => "Object"
  | .nil => "Void"
  | .comparable => "Comparable"
  | .boolean => "boolean"
  | .integer => "int"
  | .decimal => "double"
  | .character => "char"
  | .string => "String"

/-- Whether a value of type `actual` may be stored where `target` is expected. -/
def accepts (target actual : Ty) : Bool :=
  match target with
  | .any => true
  | .comparable =>
      match actual with
      | .comparable | .integer | .decimal | .character | .string => true
      | _ => false
  | _ => target == actual

theorem ofName?_name (type : Ty) : ofName? type.name = some type := by
  cases type <;> decide

theorem accepts_self (type : Ty) : type.accepts type = true := by
  cases type <;> rfl

end Ty

end Plc
