import Plc.Expr
import Plc.Parser.Basic

/-! The grammar of expressions. Operators bind in four levels, each grouped
from the left; a name may be followed by arguments or by an index, which may be
empty.

    expression  =  logical
    logical     =  comparison { ("&&" | "||") comparison }
    comparison  =  term { ("<" | ">" | "==" | "!=") term }
    term        =  factor { ("+" | "-") factor }
    factor      =  primary { ("*" | "/" | "^") primary }
    primary     =  literal  |  "(" expression ")"
                |  name [ "(" [ expression { "," expression } ] ")" | "[" [ expression ] "]" ]
-/

namespace Plc.Parser

def operator? (level : Operator.Level) : Parser (Option Operator) := do
  let binds (token : Token) : Bool :=
    token.kind == .operator && ((Operator.ofSymbol? token.literal).any (·.level == level))
  match ← take? binds with
  | some token => return Operator.ofSymbol? token.literal
  | none => return none

/-- An operator and its right operand, with the number of the expression they
complete. -/
structure Step where
  operator : Operator
  right : Expr
  id : Nat

/-- Groups operands from the left; all groups start where the first operand
does. -/
def foldSteps (first : Expr) (steps : List Step) : Expr :=
  steps.foldl
    (fun left step =>
      .binary ⟨step.id, first.node.offset⟩ step.operator left step.right)
    first

/-- Operands joined by operators of one level. -/
def chain (level : Operator.Level) (operand : Parser Expr) : Parser Expr := do
  let first ← operand
  let steps ← many do
    match ← operator? level with
    | none => return none
    | some operator =>
        let right ← operand
        return some ⟨operator, right, ← freshId⟩
  return foldSteps first steps

/-- What follows a name: arguments, an index, or nothing. An empty index
stands for none. -/
def afterName (expression : Parser Expr) (token : Token) : Parser Expr := do
  if ← skipSymbol "(" then
    let arguments ← separated ")" expression
    let _ ← symbol ")"
    return .call ⟨← freshId, token.offset⟩ token.literal arguments
  else if ← skipSymbol "[" then
    if ← skipSymbol "]" then
      return .access ⟨← freshId, token.offset⟩ token.literal
    else
      let index ← expression
      let _ ← symbol "]"
      return .element ⟨← freshId, token.offset⟩ token.literal index
  else
    return .access ⟨← freshId, token.offset⟩ token.literal

def startsExpression (token : Token) : Bool :=
  token.kind != .operator || token.literal == "("

/-- A literal, a name or an expression in parentheses. -/
def primary (expression : Parser Expr) : Parser Expr := do
  let token ← take "an expression" startsExpression
  match token.kind with
  | .operator =>
      let inner ← expression
      let _ ← symbol ")"
      return .group ⟨← freshId, token.offset⟩ inner
  | .identifier =>
      match Literal.ofWord? token.literal with
      | some value => return .literal ⟨← freshId, token.offset⟩ value
      | none => afterName expression token
  | _ =>
      match Literal.ofToken? token with
      | some value => return .literal ⟨← freshId, token.offset⟩ value
      | none => throw ⟨token.offset, .invalidLiteral token.literal⟩

/-- All levels around `primary`, loosest outside. -/
def levels (expression : Parser Expr) : Parser Expr :=
  chain .logical (chain .comparison (chain .term (chain .factor (primary expression))))

/-- An expression nested at most `depth` deep. -/
def expressionUpTo : Nat → Parser Expr
  | 0 => fail "an expression"
  | depth + 1 => levels (expressionUpTo depth)

/-- An expression. Each nesting takes a token, so the tokens bound the depth;
without a token there is no expression. -/
def expression : Parser Expr := do
  expressionUpTo (← get).rest.length

end Plc.Parser
