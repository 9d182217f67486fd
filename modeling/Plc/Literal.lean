import Plc.Decimal.Display
import Plc.Token.Scan

/-! Literals and the tokens that spell them. -/

namespace Plc

inductive Literal where
  | nil
  | boolean (value : Bool)
  | integer (value : Int)
  | decimal (value : Decimal)
  | character (value : Char)
  | string (value : String)
  deriving DecidableEq, Repr

namespace Literal

/-- The literals spelled by a word. -/
def ofWord? : String → Option Literal
  | "NIL" => some .nil
  | "TRUE" => some (.boolean true)
  | "FALSE" => some (.boolean false)
  | _ => none

/-! ## Numbers -/

def naturalValue (digits : List Char) : Nat :=
  digits.foldl (fun value digit => 10 * value + (digit.toNat - '0'.toNat)) 0

def natural? (digits : List Char) : Option Nat :=
  if digits ≠ [] ∧ digits.all Token.isDigit then some (naturalValue digits) else none

def integer? : List Char → Option Int
  | '-' :: digits => (natural? digits).map fun value => -value
  | digits => (natural? digits).map Int.ofNat

/-- The digits without the point, at a scale of one for every fraction digit. -/
def decimal? (text : List Char) : Option Decimal :=
  let whole := text.takeWhile (· != '.')
  let fraction := (text.dropWhile (· != '.')).drop 1
  (integer? (whole ++ fraction)).map fun digits => ⟨digits, fraction.length⟩

example : decimal? ['-', '1', '.', '5', '0'] = some ⟨-150, 2⟩ := by decide

/-! ## Quoted text -/

/-- What an escape stands for, given the character after its backslash. -/
def escaped : Char → Char
  | 'b' => '\x08'
  | 'n' => '\n'
  | 'r' => '\r'
  | 't' => '\t'
  | other => other

def unescape : List Char → List Char
  | [] => []
  | ['\\'] => []
  | '\\' :: head :: tail => escaped head :: unescape tail
  | head :: tail => head :: unescape tail

def unquote (text : List Char) : List Char :=
  (text.drop 1).dropLast

example : unescape (unquote ['"', 'a', '\\', 'n', '"']) = ['a', '\n'] := by decide

def ofToken? (token : Token) : Option Literal :=
  let text := token.literal.toList
  match token.kind with
  | .integer => (integer? text).map .integer
  | .decimal => (decimal? text).map .decimal
  | .character =>
      match unescape (unquote text) with
      | [single] => some (.character single)
      | _ => none
  | .string => some (.string (String.ofList (unescape (unquote text))))
  | .identifier => ofWord? token.literal
  | .operator => none

/-! ## Display -/

structure Style where
  character : Char → String
  text : String → String
  decimal : Decimal → String

/-- Printable characters stay as they are. -/
def Style.printing (data : Text.CharacterData) : Style :=
  ⟨Text.printableEscape data false, Text.printableText data, Decimal.display⟩

def Style.usual : Style :=
  .printing .usual

/-- A literal in the style, with quotes around characters and text. -/
def displayIn (style : Style) : Literal → String
  | .nil => "NIL"
  | .boolean true => "TRUE"
  | .boolean false => "FALSE"
  | .integer value => toString value
  | .decimal value => style.decimal value
  | .character value => "'" ++ style.character value ++ "'"
  | .string value => "\"" ++ style.text value ++ "\""

end Literal

end Plc
