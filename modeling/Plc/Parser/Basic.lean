import Plc.Program.Error
import Plc.Token.Basic

/-! Reading a list of tokens from its front. A parser never goes back: the
first token that does not fit is an error. -/

namespace Plc

/-- The tokens still to be read, the end of the last one read, and the number
the next part of the program will get. -/
structure Cursor where
  rest : List Token
  lastEnd : Nat
  nextId : Nat
  deriving Repr

abbrev Parser := StateT Cursor (Except GrammarError)

namespace Parser

/-- When parsers in turn give a result, so does the first of them. -/
theorem bind_eq_ok {parser : Parser α} {next : α → Parser β} {cursor after : Cursor} {result : β}
    (ran : (parser >>= next) cursor = .ok (result, after)) :
    ∃ value middle, parser cursor = .ok (value, middle) ∧
      next value middle = .ok (result, after) := by
  have opened : (parser >>= next) cursor =
      (parser cursor).bind fun pair => next pair.1 pair.2 := rfl
  rw [opened] at ran
  cases first : parser cursor with
  | error error =>
      rw [first] at ran
      cases ran
  | ok pair =>
      rw [first] at ran
      exact ⟨pair.1, pair.2, rfl, ran⟩

/-- Fails at the next token, or at the end of the text. -/
def fail (expected : String) : Parser α := fun cursor =>
  match cursor.rest with
  | [] => .error ⟨cursor.lastEnd, .expected expected none⟩
  | token :: _ => .error ⟨token.offset, .expected expected (some token.literal)⟩

def nextIs (property : Token → Bool) : Parser Bool := fun cursor =>
  .ok (cursor.rest.head?.any property, cursor)

/-- Reads the next token if there is one and it has the property. -/
def take? (property : Token → Bool) : Parser (Option Token) := fun cursor =>
  match cursor.rest with
  | [] => .ok (none, cursor)
  | token :: rest =>
      if property token then
        .ok (some token, { cursor with rest, lastEnd := token.stop })
      else
        .ok (none, cursor)

def take (expected : String) (property : Token → Bool) : Parser Token := do
  match ← take? property with
  | some token => return token
  | none => fail expected

def skipWord (literal : String) : Parser Bool := do
  return (← take? (·.isWord literal)).isSome

def skipSymbol (literal : String) : Parser Bool := do
  return (← take? (·.isSymbol literal)).isSome

def word (literal : String) : Parser Token :=
  take literal (·.isWord literal)

def symbol (literal : String) : Parser Token :=
  take literal (·.isSymbol literal)

def name : Parser String := do
  return (← take "an identifier" (·.kind == .identifier)).literal

/-- A number no part of the program has yet. -/
def freshId : Parser Nat := fun cursor =>
  .ok (cursor.nextId, { cursor with nextId := cursor.nextId + 1 })

/-- Reads items until there is none, but at most `count`. -/
def manyUpTo (item? : Parser (Option α)) : Nat → Parser (List α)
  | 0 => return []
  | count + 1 => do
      match ← item? with
      | none => return []
      | some item => return item :: (← manyUpTo item? count)

/-- Reads items until there is none. An item takes at least one token, so
there are no more items than tokens. -/
def many (item? : Parser (Option α)) : Parser (List α) := do
  manyUpTo item? (← get).rest.length

/-- Items with commas between them, up to a closing symbol, which is not read. -/
def separated (close : String) (item : Parser α) : Parser (List α) := do
  if ← nextIs (·.isSymbol close) then
    return []
  let first ← item
  let others ← many do
    if ← skipSymbol "," then
      return some (← item)
    else
      return none
  return first :: others

/-- A value read after a symbol that may be missing. -/
def after? (literal : String) (item : Parser α) : Parser (Option α) := do
  if ← skipSymbol literal then
    return some (← item)
  else
    return none

def typeName? : Parser (Option String) :=
  after? ":" name

end Parser

end Plc
