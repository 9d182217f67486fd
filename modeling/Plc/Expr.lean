import Plc.Literal
import Plc.Operator

/-! Expressions. -/

namespace Plc

/-- What identifies a part of a program: a number no other part has, and the
byte at which its first token starts. -/
structure Node where
  id : Nat
  offset : Nat
  deriving DecidableEq, Repr

inductive Expr where
  | literal (node : Node) (value : Literal)
  | group (node : Node) (inner : Expr)
  | binary (node : Node) (operator : Operator) (left right : Expr)
  /-- The value of a variable. -/
  | access (node : Node) (name : String)
  /-- An element of the list a variable holds. -/
  | element (node : Node) (name : String) (index : Expr)
  | call (node : Node) (name : String) (arguments : List Expr)
  | list (node : Node) (elements : List Expr)
  deriving Repr

namespace Expr

def node : Expr → Node
  | .literal node _ | .group node _ | .binary node _ _ _ | .access node _
  | .element node _ _ | .call node _ _ | .list node _ => node

def isBinary : Expr → Bool
  | .binary .. => true
  | _ => false

def isCall : Expr → Bool
  | .call .. => true
  | _ => false

/-- Whether the expression names a place that can be assigned to. -/
def isReceiver : Expr → Bool
  | .access .. | .element .. => true
  | _ => false

mutual

/-- The expression and all expressions in it, each before its parts and the
parts from left to right. -/
def subterms : Expr → List Expr
  | .literal node value => [.literal node value]
  | .group node inner => .group node inner :: inner.subterms
  | .binary node operator left right =>
      .binary node operator left right :: (left.subterms ++ right.subterms)
  | .access node name => [.access node name]
  | .element node name index => .element node name index :: index.subterms
  | .call node name arguments => .call node name arguments :: subtermsOfAll arguments
  | .list node elements => .list node elements :: subtermsOfAll elements

def subtermsOfAll : List Expr → List Expr
  | [] => []
  | head :: tail => head.subterms ++ subtermsOfAll tail

end

mutual

/-- The expression with every operation written before its operands, and its literals in the
style. -/
def displayIn (style : Literal.Style) : Expr → String
  | .literal _ value => value.displayIn style
  | .group _ inner => "(group " ++ inner.displayIn style ++ ")"
  | .binary _ operator left right =>
      "(" ++ operator.symbol ++ " " ++ left.displayIn style ++ " " ++ right.displayIn style ++ ")"
  | .access _ name => name
  | .element _ name index => "(index " ++ name ++ " " ++ index.displayIn style ++ ")"
  | .call _ name arguments => "(call " ++ name ++ displayAllIn style arguments ++ ")"
  | .list _ elements => "(list" ++ displayAllIn style elements ++ ")"

def displayAllIn (style : Literal.Style) : List Expr → String
  | [] => ""
  | head :: tail => " " ++ head.displayIn style ++ displayAllIn style tail

end

def display (expression : Expr) : String :=
  expression.displayIn .usual

end Expr

end Plc
