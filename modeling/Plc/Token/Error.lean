import Plc.Text.Escape

/-! What can be wrong with a literal. -/

namespace Plc

inductive LexicalError.Cause where
  /-- A digit directly after a leading zero. -/
  | leadingZero
  /-- A decimal point that no digit follows. -/
  | missingFraction
  | emptyCharacter
  /-- A character literal with more than one character, or not closed. -/
  | unterminatedCharacter
  | unterminatedString
  /-- A backslash before a character that has no escape. -/
  | invalidEscape (character : Char)
  /-- A newline, carriage return or tab that has to be written as an escape. -/
  | rawControl (character : Char)
  deriving DecidableEq, Repr

def LexicalError.Cause.message : LexicalError.Cause → String
  | .leadingZero => "Leading zeros are not allowed"
  | .missingFraction => "Expected a digit after the decimal point"
  | .emptyCharacter => "Empty character literal"
  | .unterminatedCharacter => "Unterminated character literal"
  | .unterminatedString => "Unterminated string"
  | .invalidEscape character =>
      "Invalid escape sequence '\\" ++ Text.asciiEscape character ++ "'"
  | .rawControl character =>
      "Unexpected raw control character '" ++ Text.asciiEscape character ++ "'"

/-- A cause and the byte offset of the first character that does not fit. -/
structure LexicalError where
  offset : Nat
  cause : LexicalError.Cause
  deriving DecidableEq, Repr

end Plc
