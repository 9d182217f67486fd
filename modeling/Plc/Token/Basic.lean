/-! Tokens: the words of a program text. -/

namespace Plc

/-- Keywords are identifiers; the grammar tells them apart by their text. -/
inductive Token.Kind where
  | identifier
  | integer
  | decimal
  | character
  | string
  | operator
  deriving DecidableEq, Repr

def Token.Kind.name : Token.Kind → String
  | .identifier => "Identifier"
  | .integer => "Integer"
  | .decimal => "Decimal"
  | .character => "Character"
  | .string => "String"
  | .operator => "Operator"

/-- A piece of a program text. `literal` is the text as written, quotes and
escapes included; `offset` is the byte at which it starts. -/
structure Token where
  kind : Token.Kind
  literal : String
  offset : Nat
  deriving DecidableEq, Repr

namespace Token

def stop (token : Token) : Nat :=
  token.offset + token.literal.utf8ByteSize

def isWord (token : Token) (literal : String) : Bool :=
  token.kind == .identifier && token.literal == literal

def isSymbol (token : Token) (literal : String) : Bool :=
  token.kind == .operator && token.literal == literal

def display (token : Token) : String :=
  token.kind.name ++ " " ++ token.literal ++ " @" ++ toString token.offset

end Token

end Plc
