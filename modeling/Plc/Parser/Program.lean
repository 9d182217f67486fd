import Plc.Parser.Expr
import Plc.Program.Basic

/-! The grammar of statements, declarations and programs. A keyword is a name
wherever a name is asked for.

    program    =  { global } { function }
    global     =  "LIST" name [ type ] "=" "[" [ expression { "," expression } ] "]" ";"
               |  "VAR" name [ type ] [ "=" expression ] ";"
               |  "VAL" name [ type ] "=" expression ";"
    function   =  "FUN" name "(" [ name [ type ] { "," name [ type ] } ] ")" [ type ]
                  "DO" block "END"
    type       =  ":" name
    block      =  { statement }
    statement  =  "LET" name [ type ] [ "=" expression ] ";"
               |  "IF" expression "DO" block [ "ELSE" block ] "END"
               |  "SWITCH" expression { "CASE" expression ":" block } "DEFAULT" [ ":" ] block "END"
               |  "WHILE" expression "DO" block "END"
               |  "RETURN" expression ";"
               |  expression [ "=" expression ] ";"
-/

namespace Plc

namespace Parser

/-! ## Statements -/

def endsBlock (token : Token) : Bool :=
  token.isWord "END" || token.isWord "ELSE" || token.isWord "CASE" ||
    token.isWord "DEFAULT"

def declaration : Parser Stmt := do
  let id ← freshId
  let name ← name
  let typeName ← typeName?
  let value ← after? "=" expression
  let _ ← symbol ";"
  return .declaration id name typeName value

def conditional (block : Parser (List Stmt)) : Parser Stmt := do
  let condition ← expression
  let _ ← word "DO"
  let whenTrue ← block
  let whenFalse ← if ← skipWord "ELSE" then block else pure []
  let _ ← word "END"
  return .conditional condition whenTrue whenFalse

def case? (block : Parser (List Stmt)) : Parser (Option Case) := do
  if ← skipWord "CASE" then
    let value ← expression
    let _ ← symbol ":"
    return some (.mk (some value) (← block))
  else
    return none

def switch (block : Parser (List Stmt)) : Parser Stmt := do
  let condition ← expression
  let cases ← many (case? block)
  let _ ← word "DEFAULT"
  let _ ← skipSymbol ":"
  let default ← block
  let _ ← word "END"
  return .switch condition (cases ++ [.mk none default])

def loop (block : Parser (List Stmt)) : Parser Stmt := do
  let condition ← expression
  let _ ← word "DO"
  let body ← block
  let _ ← word "END"
  return .loop condition body

def returns : Parser Stmt := do
  let value ← expression
  let _ ← symbol ";"
  return .returns value

def simple : Parser Stmt := do
  let first ← expression
  let value? ← after? "=" expression
  let _ ← symbol ";"
  match value? with
  | some value => return .assignment first value
  | none => return .expression first

def statement (block : Parser (List Stmt)) : Parser Stmt := do
  if ← skipWord "LET" then declaration
  else if ← skipWord "IF" then conditional block
  else if ← skipWord "SWITCH" then switch block
  else if ← skipWord "WHILE" then loop block
  else if ← skipWord "RETURN" then returns
  else simple

/-- A statement, unless the block or the text ends here. -/
def statement? (block : Parser (List Stmt)) : Parser (Option Stmt) := do
  if ← nextIs (!endsBlock ·) then
    return some (← statement block)
  else
    return none

/-- A block nested at most `depth` deep. -/
def blockUpTo : Nat → Parser (List Stmt)
  | 0 => return []
  | depth + 1 => many (statement? (blockUpTo depth))

/-- The statements up to the end of the block. Each nesting takes a token, so
the tokens bound the depth; without a token the block is empty. -/
def block : Parser (List Stmt) := do
  blockUpTo (← get).rest.length

/-! ## Declarations -/

def listLiteral : Parser Expr := do
  let opening ← symbol "["
  let elements ← separated "]" expression
  let _ ← symbol "]"
  return .list ⟨← freshId, opening.offset⟩ elements

def global? : Parser (Option Global) := do
  let declares (token : Token) : Bool :=
    token.isWord "LIST" || token.isWord "VAR" || token.isWord "VAL"
  match ← take? declares with
  | none => return none
  | some keyword =>
      let id ← freshId
      let name ← name
      let typeName ← typeName?
      let value ←
        if keyword.literal = "VAR" then
          after? "=" expression
        else do
          let _ ← symbol "="
          some <$> (if keyword.literal = "LIST" then listLiteral else expression)
      let _ ← symbol ";"
      return some ⟨id, name, typeName, keyword.literal != "VAL", value⟩

def parameter : Parser Parameter := do
  return ⟨← name, ← typeName?⟩

def procedure? : Parser (Option Procedure) := do
  if ← skipWord "FUN" then
    let id ← freshId
    let name ← name
    let _ ← symbol "("
    let parameters ← separated ")" parameter
    let _ ← symbol ")"
    let resultTypeName ← typeName?
    let _ ← word "DO"
    let body ← block
    let _ ← word "END"
    return some ⟨id, name, parameters, resultTypeName, body⟩
  else
    return none

def endOfText : Parser Unit := fun cursor =>
  match cursor.rest with
  | [] => .ok ((), cursor)
  | token :: _ => .error ⟨token.offset, .trailingToken token.literal⟩

def program : Parser Program := do
  let globals ← many global?
  let procedures ← many procedure?
  endOfText
  return ⟨globals, procedures⟩

end Parser

/-- The program that the tokens spell. Its parts are numbered from one. -/
def Program.ofTokens (tokens : List Token) : Except GrammarError Program :=
  (Parser.program.run' ⟨tokens, 0, 1⟩)

end Plc
