import Mathlib.Computability.Language
import Mathlib.Order.CompletePartialOrder
import Plc.Program.Basic
import Plc.Token.Basic

/-! The tokens that a program was read from. The spellings of a tree are the lists of tokens
that it can be read from as it is, with the offsets of its expressions: the tokens that spell
an expression begin at its offset. -/

namespace Plc

/-! ## Languages of tokens -/

namespace Spelling

def one (property : Token → Prop) : Language Token :=
  {tokens | ∃ token, property token ∧ tokens = [token]}

abbrev word (literal : String) : Language Token :=
  one fun token => token.isWord literal = true

abbrev symbol (literal : String) : Language Token :=
  one fun token => token.isSymbol literal = true

abbrev identifier (literal : String) : Language Token :=
  one fun token => token.kind = .identifier ∧ token.literal = literal

abbrev variableName (literal : String) : Language Token :=
  one fun token =>
    token.kind = .identifier ∧ token.literal = literal ∧ Literal.ofWord? literal = none

abbrev literalOf (value : Literal) : Language Token :=
  one fun token => Literal.ofToken? token = some value

theorem one_le_one {property : Token → Prop} {token : Token} (holds : property token) :
    one (· = token) ≤ one property := by
  rintro _ ⟨other, rfl, rfl⟩
  exact ⟨other, holds, rfl⟩

/-- The lists of the language whose first token is at the offset. -/
def startingAt (offset : Nat) (language : Language Token) : Language Token :=
  {tokens | tokens ∈ language ∧ tokens.head?.map Token.offset = some offset}

/-- Every list of the language begins with a token at the offset. -/
def Starts (offset : Nat) (language : Language Token) : Prop :=
  ∀ tokens ∈ language, tokens.head?.map Token.offset = some offset

theorem starts_one (token : Token) : Starts token.offset (one (· = token)) := by
  rintro _ ⟨_, rfl, rfl⟩
  rfl

theorem Starts.mul {offset : Nat} {language : Language Token} (starts : Starts offset language)
    (others : Language Token) : Starts offset (language * others) := by
  intro tokens member
  rcases Language.mem_mul.mp member with ⟨front, inFront, back, -, rfl⟩
  have first := starts front inFront
  cases front with
  | nil => cases first
  | cons token rest => exact first

theorem Starts.le_startingAt {offset : Nat} {language wider : Language Token}
    (starts : Starts offset language) (included : language ≤ wider) :
    language ≤ startingAt offset wider :=
  fun tokens member => ⟨included member, starts tokens member⟩

def followed : List (Language Token) → Language Token
  | [] => 1
  | head :: tail => symbol "," * head * followed tail

theorem followed_eq_prod (items : List (Language Token)) :
    followed items = (items.map (symbol "," * ·)).prod := by
  induction items with
  | nil => rfl
  | cons head tail induction => rw [followed, induction, List.map_cons, List.prod_cons]

def listed : List (Language Token) → Language Token
  | [] => 1
  | head :: tail => head * followed tail

def after (literal : String) (item : Option (Language Token)) : Language Token :=
  item.elim 1 (symbol literal * ·)

abbrev typed (typeName : Option String) : Language Token :=
  after ":" (typeName.map identifier)

/-- The second branch of a condition, which is not written when it is empty. -/
def otherwise (isEmpty : Bool) (branch : Language Token) : Language Token :=
  word "ELSE" * branch + if isEmpty then 1 else 0

end Spelling

open Spelling

/-! ## Expressions -/

mutual

def Expr.spellings : Expr → Language Token
  | .literal node value => startingAt node.offset (literalOf value)
  | .group node inner => startingAt node.offset (symbol "(" * inner.spellings * symbol ")")
  | .binary node operator left right =>
      startingAt node.offset (left.spellings * symbol operator.symbol * right.spellings)
  | .access node name =>
      startingAt node.offset (variableName name * (1 + symbol "[" * symbol "]"))
  | .element node name index =>
      startingAt node.offset (variableName name * symbol "[" * index.spellings * symbol "]")
  | .call node name arguments =>
      startingAt node.offset (variableName name * symbol "(" *
        listed (Expr.spellingsOfEach arguments) * symbol ")")
  | .list node elements =>
      startingAt node.offset (symbol "[" * listed (Expr.spellingsOfEach elements) * symbol "]")

def Expr.spellingsOfEach : List Expr → List (Language Token)
  | [] => []
  | head :: tail => head.spellings :: Expr.spellingsOfEach tail

end

theorem Expr.spellingsOfEach_eq_map (expressions : List Expr) :
    Expr.spellingsOfEach expressions = expressions.map Expr.spellings := by
  induction expressions with
  | nil => rfl
  | cons head tail induction => rw [Expr.spellingsOfEach, induction, List.map_cons]

theorem Expr.starts (expression : Expr) :
    Starts expression.node.offset expression.spellings := by
  cases expression <;> exact fun _ member => member.2

abbrev Expr.spellingsOf? (value : Option Expr) : Language Token :=
  after "=" (value.map Expr.spellings)

/-! ## Statements -/

mutual

def Stmt.spellings : Stmt → Language Token
  | .expression value => value.spellings * symbol ";"
  | .declaration _ name typeName value =>
      word "LET" * identifier name * typed typeName * Expr.spellingsOf? value * symbol ";"
  | .assignment receiver value =>
      receiver.spellings * symbol "=" * value.spellings * symbol ";"
  | .conditional condition whenTrue whenFalse =>
      word "IF" * condition.spellings * word "DO" * Stmt.spellingsOfAll whenTrue *
        otherwise whenFalse.isEmpty (Stmt.spellingsOfAll whenFalse) * word "END"
  | .switch condition cases =>
      word "SWITCH" * condition.spellings * Case.spellingsOfAll cases * word "END"
  | .loop condition body =>
      word "WHILE" * condition.spellings * word "DO" * Stmt.spellingsOfAll body * word "END"
  | .returns value => word "RETURN" * value.spellings * symbol ";"

def Stmt.spellingsOfAll : List Stmt → Language Token
  | [] => 1
  | head :: tail => head.spellings * Stmt.spellingsOfAll tail

def Case.spellings : Case → Language Token
  | .mk (some value) body =>
      word "CASE" * value.spellings * symbol ":" * Stmt.spellingsOfAll body
  | .mk none body => word "DEFAULT" * (1 + symbol ":") * Stmt.spellingsOfAll body

def Case.spellingsOfAll : List Case → Language Token
  | [] => 1
  | head :: tail => head.spellings * Case.spellingsOfAll tail

end

theorem Stmt.spellingsOfAll_eq_prod (statements : List Stmt) :
    Stmt.spellingsOfAll statements = (statements.map Stmt.spellings).prod := by
  induction statements with
  | nil => rfl
  | cons head tail induction => rw [Stmt.spellingsOfAll, induction, List.map_cons, List.prod_cons]

theorem Case.spellingsOfAll_eq_prod (cases : List Case) :
    Case.spellingsOfAll cases = (cases.map Case.spellings).prod := by
  induction cases with
  | nil => rfl
  | cons head tail induction => rw [Case.spellingsOfAll, induction, List.map_cons, List.prod_cons]

/-! ## Programs -/

def Global.keywords (declaration : Global) : Language Token :=
  if declaration.isMutable then word "LIST" + word "VAR" else word "VAL"

def Global.spellings (declaration : Global) : Language Token :=
  declaration.keywords * identifier declaration.name * typed declaration.typeName *
    Expr.spellingsOf? declaration.value * symbol ";"

def Parameter.spellings (parameter : Parameter) : Language Token :=
  identifier parameter.name * typed parameter.typeName

def Procedure.spellings (procedure : Procedure) : Language Token :=
  word "FUN" * identifier procedure.name * symbol "(" *
    listed (procedure.parameters.map Parameter.spellings) * symbol ")" *
    typed procedure.resultTypeName * word "DO" * Stmt.spellingsOfAll procedure.body * word "END"

def Program.spellings (program : Program) : Language Token :=
  (program.globals.map Global.spellings).prod * (program.procedures.map Procedure.spellings).prod

end Plc
