/-! Binary operators. -/

namespace Plc

inductive Operator where
  | and
  | or
  | less
  | greater
  | equal
  | notEqual
  | add
  | subtract
  | multiply
  | divide
  | power
  deriving DecidableEq, Repr

namespace Operator

def symbol : Operator → String
  | .and => "&&"
  | .or => "||"
  | .less => "<"
  | .greater => ">"
  | .equal => "=="
  | .notEqual => "!="
  | .add => "+"
  | .subtract => "-"
  | .multiply => "*"
  | .divide => "/"
  | .power => "^"

def all : List Operator :=
  [.and, .or, .less, .greater, .equal, .notEqual, .add, .subtract, .multiply,
    .divide, .power]

def ofSymbol? (symbol : String) : Option Operator :=
  all.find? (·.symbol == symbol)

/-- How tightly an operator binds, loosest first. Operators of one level group
from the left. -/
inductive Level where
  | logical
  | comparison
  | term
  | factor
  deriving DecidableEq, Repr

def level : Operator → Level
  | .and | .or => .logical
  | .less | .greater | .equal | .notEqual => .comparison
  | .add | .subtract => .term
  | .multiply | .divide | .power => .factor

theorem mem_all (operator : Operator) : operator ∈ all := by
  cases operator <;> decide

theorem ofSymbol?_symbol (operator : Operator) :
    ofSymbol? operator.symbol = some operator := by
  cases operator <;> decide

end Operator

end Plc
