/-! Why tokens are not a program. -/

namespace Plc

inductive GrammarError.Cause where
  /-- Something else was required; `found` is `none` at the end of the text. -/
  | expected (wanted : String) (found : Option String)
  /-- A token after the last function. -/
  | trailingToken (literal : String)
  /-- A token that spells no value. -/
  | invalidLiteral (literal : String)
  deriving DecidableEq, Repr

def GrammarError.Cause.message : GrammarError.Cause → String
  | .expected wanted (some found) => "Expected " ++ wanted ++ ", found '" ++ found ++ "'"
  | .expected wanted none => "Expected " ++ wanted ++ ", found end of input"
  | .trailingToken literal => "Unexpected '" ++ literal ++ "' after the last function"
  | .invalidLiteral literal => "Invalid literal '" ++ literal ++ "'"

/-- A cause and the offset of the first token that does not fit, or the end of
the last token when all of them did. -/
structure GrammarError where
  offset : Nat
  cause : GrammarError.Cause
  deriving DecidableEq, Repr

end Plc
