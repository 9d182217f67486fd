import Plc.Program.Basic
import Plc.Token.Basic

/-! The grammar of programs. A form says which lists of tokens spell a phrase and which
tree each of them stands for; a rule is a form that other forms use by its name.

    source      =  { global } { function }
    global      =  list  |  mutable  |  immutable
    list        =  "LIST" name [ ":" name ] "=" "[" [ expression { "," expression } ] "]" ";"
    mutable     =  "VAR" name [ ":" name ] [ "=" expression ] ";"
    immutable   =  "VAL" name [ ":" name ] "=" expression ";"
    function    =  "FUN" name "(" [ parameters ] ")" [ ":" name ] "DO" block "END"
    parameters  =  name [ ":" name ] { "," name [ ":" name ] }
    block       =  { statement }
    statement   =  "LET" name [ ":" name ] [ "=" expression ] ";"
                |  "IF" expression "DO" block [ "ELSE" block ] "END"
                |  "SWITCH" expression { "CASE" expression ":" block } "DEFAULT" [ ":" ] block "END"
                |  "WHILE" expression "DO" block "END"
                |  "RETURN" expression ";"
                |  expression [ "=" expression ] ";"
    expression  =  logical
    logical     =  comparison { ("&&" | "||") comparison }
    comparison  =  term { ("<" | ">" | "==" | "!=") term }
    term        =  factor { ("+" | "-") factor }
    factor      =  primary { ("*" | "/" | "^") primary }
    primary     =  "NIL"  |  "TRUE"  |  "FALSE"  |  integer  |  decimal  |  character  |  string
                |  "(" expression ")"
                |  name [ "(" [ arguments ] ")" | "[" [ expression ] "]" ]
    arguments   =  expression { "," expression }
-/

namespace Plc

def Node.none : Node := ⟨0, 0⟩

namespace Grammar

/-! ## Forms -/

inductive Rule where
  | source
  | global
  | list
  | mutable
  | immutable
  | function
  | parameters
  | block
  | statement
  | expression
  | logical
  | comparison
  | term
  | factor
  | primary
  | arguments
  deriving DecidableEq, Repr

/-- What the phrases of a rule stand for. -/
def Rule.Tree : Rule → Type
  | .source => Program
  | .global | .list | .mutable | .immutable => Global
  | .function => Procedure
  | .parameters => List Parameter
  | .block => List Stmt
  | .statement => Stmt
  | .expression | .logical | .comparison | .term | .factor | .primary => Expr
  | .arguments => List Expr

inductive Form : Type → Type 1 where
  /-- One token with the property. -/
  | terminal (property : Token → Bool) (make : Token → α) : Form α
  /-- No token. -/
  | nothing (value : α) : Form α
  | sequence (first : Form α) (second : Form β) (make : α → β → γ) : Form γ
  | choice (left right : Form α) : Form α
  /-- Any number of items. -/
  | many (item : Form α) (nil : β) (cons : α → β → β) : Form β
  /-- A phrase whose first token has the property. -/
  | guarded (property : Token → Bool) (form : Form α) : Form α
  | rule (name : Rule) (make : name.Tree → α) : Form α

namespace Form

abbrev word (literal : String) : Form Token :=
  .terminal (·.isWord literal) id

abbrev symbol (literal : String) : Form Token :=
  .terminal (·.isSymbol literal) id

/-- Any identifier, keywords included. -/
abbrev name : Form String :=
  .terminal (·.kind == .identifier) Token.literal

/-- Two phrases, of which only the second matters. -/
abbrev skip (first : Form α) (second : Form β) : Form β :=
  .sequence first second fun _ value => value

/-- Two phrases, of which only the first matters. -/
abbrev before (first : Form α) (second : Form β) : Form α :=
  .sequence first second fun value _ => value

abbrev pair (first : Form α) (second : Form β) : Form (α × β) :=
  .sequence first second Prod.mk

abbrev after (literal : String) (form : Form α) : Form (Option α) :=
  .choice (.sequence (symbol literal) form fun _ value => some value) (.nothing none)

abbrev list (item : Form α) : Form (List α) :=
  .many item [] List.cons

abbrev separated (item : Form α) : Form (List α) :=
  .sequence item (list (skip (symbol ",") item)) List.cons

/-- A phrase that may be left out, and then stands for an empty list. -/
abbrev orEmpty (form : Form (List α)) : Form (List α) :=
  .choice form (.nothing [])

/-! ## Expressions

No tree has numbers or offsets in it. -/

abbrev expression : Form Expr :=
  .rule .expression id

/-- One of the operators. The token spells it, so the default is never taken. -/
abbrev oneOf (operators : List Operator) : Form Operator :=
  .terminal (fun token => operators.any fun operator => token.isSymbol operator.symbol)
    fun token => (Operator.ofSymbol? token.literal).getD .and

def chain (operators : List Operator) (operand : Form Expr) : Form Expr :=
  .sequence operand (list (pair (oneOf operators) operand)) fun first links =>
    links.foldl (fun left link => .binary .none link.1 left link.2) first

abbrev constant (literal : String) (value : Literal) : Form Expr :=
  .terminal (·.isWord literal) fun _ => .literal .none value

/-- A number, a character or a string. A scanned token spells one. -/
abbrev literal : Form Expr :=
  .terminal (fun token => token.kind != .identifier && token.kind != .operator) fun token =>
    .literal .none ((Literal.ofToken? token).getD .nil)

/-- An identifier that is not the name of a value. -/
abbrev variableName : Form String :=
  .terminal (fun token =>
    token.kind == .identifier && !(["NIL", "TRUE", "FALSE"].contains token.literal))
    Token.literal

def call : Form (String → Expr) :=
  .sequence (orEmpty (.rule .arguments id)) (symbol ")")
    fun arguments _ name => .call .none name arguments

def index : Form (String → Expr) :=
  .sequence (.choice (.rule .expression some) (.nothing none)) (symbol "]")
    fun index _ name => match index with
      | some index => .element .none name index
      | none => .access .none name

def selection : Form (String → Expr) :=
  .choice (skip (symbol "(") call)
  (.choice (skip (symbol "[") index)
  (.nothing fun name => .access .none name))

/-! ## Statements -/

abbrev block : Form (List Stmt) :=
  .rule .block id

abbrev typeName : Form (Option String) :=
  after ":" name

def declaration : Form Stmt :=
  .sequence name (pair typeName (before (after "=" expression) (symbol ";")))
    fun name parts => .declaration 0 name parts.1 parts.2

def conditional : Form Stmt :=
  .sequence expression
    (skip (word "DO") (pair block (before (orEmpty (skip (word "ELSE") block)) (word "END"))))
    fun condition branches => .conditional condition branches.1 branches.2

def case : Form Case :=
  skip (word "CASE") (.sequence expression (skip (symbol ":") block)
    fun value body => .mk (some value) body)

def switch : Form Stmt :=
  .sequence expression
    (pair (list case) (skip (word "DEFAULT")
      (skip (.choice (.terminal (·.isSymbol ":") fun _ => ()) (.nothing ()))
        (before block (word "END")))))
    fun condition parts => .switch condition (parts.1 ++ [.mk none parts.2])

def loop : Form Stmt :=
  .sequence expression (skip (word "DO") (before block (word "END"))) .loop

def returns : Form Stmt :=
  .sequence expression (symbol ";") fun value _ => .returns value

def simple : Form Stmt :=
  .sequence expression (before (after "=" expression) (symbol ";")) fun first value =>
    match value with
    | some value => .assignment first value
    | none => .expression first

/-! ## Declarations -/

def parameter : Form Parameter :=
  .sequence name typeName Parameter.mk

def elements : Form (Option Expr) :=
  skip (symbol "[") (.sequence (orEmpty (separated expression)) (symbol "]")
    fun elements _ => some (.list .none elements))

def global (isMutable : Bool) (value : Form (Option Expr)) : Form Global :=
  .sequence name (pair typeName (before value (symbol ";")))
    fun name parts => ⟨0, name, parts.1, isMutable, parts.2⟩

def function : Form Procedure :=
  .sequence name (skip (symbol "(") (pair (orEmpty (.rule .parameters id)) (skip (symbol ")")
    (pair typeName (skip (word "DO") (before block (word "END")))))))
    fun name parts => ⟨0, name, parts.1, parts.2.1, parts.2.2⟩

end Form

/-! ## The rules -/

/-- The keywords that a statement without a keyword does not begin with: those that begin
another statement, and those that end a block. -/
def keywords : List String :=
  ["LET", "IF", "SWITCH", "WHILE", "RETURN", "END", "ELSE", "CASE", "DEFAULT"]

open Form in
def rules : (rule : Rule) → Form rule.Tree
  | .source => .sequence (list (.rule .global id)) (list (.rule .function id)) Program.mk
  | .global => .choice (.rule .list id) (.choice (.rule .mutable id) (.rule .immutable id))
  | .list => skip (word "LIST") (global true (skip (symbol "=") elements))
  | .mutable => skip (word "VAR") (global true (after "=" expression))
  | .immutable => skip (word "VAL") (global false (skip (symbol "=") (.rule .expression some)))
  | .function => skip (word "FUN") function
  | .parameters => separated parameter
  | .block => list (.rule .statement id)
  | .statement =>
      .choice (skip (word "LET") declaration)
      (.choice (skip (word "IF") conditional)
      (.choice (skip (word "SWITCH") switch)
      (.choice (skip (word "WHILE") loop)
      (.choice (skip (word "RETURN") returns)
      (.guarded (fun token => !keywords.any token.isWord) simple)))))
  | .expression => .rule .logical id
  | .logical => chain [.and, .or] (.rule .comparison id)
  | .comparison => chain [.less, .greater, .equal, .notEqual] (.rule .term id)
  | .term => chain [.add, .subtract] (.rule .factor id)
  | .factor => chain [.multiply, .divide, .power] (.rule .primary id)
  | .primary =>
      .choice (constant "NIL" .nil)
      (.choice (constant "TRUE" (.boolean true))
      (.choice (constant "FALSE" (.boolean false))
      (.choice literal
      (.choice (skip (symbol "(") (.sequence expression (symbol ")")
        fun inner _ => .group .none inner))
      (.sequence variableName selection fun name select => select name)))))
  | .arguments => separated expression

/-! ## Derivations -/

inductive Derivation : {α : Type} → Form α → List Token → Type 1 where
  | terminal {α : Type} {property : Token → Bool} {make : Token → α} (token : Token)
      (fits : property token = true) : Derivation (.terminal property make) [token]
  | nothing {α : Type} {value : α} : Derivation (.nothing value) []
  | sequence {α β γ : Type} {first : Form α} {second : Form β} {make : α → β → γ}
      {front back : List Token} (head : Derivation first front) (tail : Derivation second back) :
      Derivation (.sequence first second make) (front ++ back)
  | left {α : Type} {left right : Form α} {tokens : List Token} (inner : Derivation left tokens) :
      Derivation (.choice left right) tokens
  | right {α : Type} {left right : Form α} {tokens : List Token}
      (inner : Derivation right tokens) : Derivation (.choice left right) tokens
  | done {α β : Type} {item : Form α} {nil : β} {cons : α → β → β} :
      Derivation (.many item nil cons) []
  | more {α β : Type} {item : Form α} {nil : β} {cons : α → β → β} {front back : List Token}
      (head : Derivation item front) (tail : Derivation (.many item nil cons) back) :
      Derivation (.many item nil cons) (front ++ back)
  | guarded {α : Type} {property : Token → Bool} {form : Form α} {token : Token}
      {tokens : List Token} (inner : Derivation form (token :: tokens))
      (allowed : property token = true) : Derivation (.guarded property form) (token :: tokens)
  | rule {α : Type} {name : Rule} {make : name.Tree → α} {tokens : List Token}
      (inner : Derivation (rules name) tokens) : Derivation (.rule name make) tokens

def Derivation.value : {α : Type} → {form : Form α} → {tokens : List Token} →
    Derivation form tokens → α
  | _, .terminal _ make, _, .terminal token _ => make token
  | _, .nothing value, _, .nothing => value
  | _, .sequence _ _ make, _, .sequence head tail => make head.value tail.value
  | _, _, _, .left inner => inner.value
  | _, _, _, .right inner => inner.value
  | _, .many _ nil _, _, .done => nil
  | _, .many _ _ cons, _, .more head tail => cons head.value tail.value
  | _, _, _, .guarded inner _ => inner.value
  | _, .rule _ make, _, .rule inner => make inner.value

end Grammar

end Plc
