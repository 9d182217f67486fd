import Plc.Parser.Program
import Plc.Text.Position
import Plc.Typing.Error
import Plc.Value.Error

/-! Errors of all kinds, as they are reported. -/

namespace Plc

inductive Diagnostic where
  /-- A failure outside of the program, with what led to it last. -/
  | internal (causes : List String)
  | lexical (error : LexicalError)
  | grammar (error : GrammarError)
  | typing (error : TypingError)
  | runtime (error : RuntimeError)
  /-- A run was given up. -/
  | unfinished
  deriving DecidableEq, Repr

namespace Diagnostic

def ofStop : Stop → Diagnostic
  | .fault error => .runtime error
  | .unfinished => .unfinished

def message : Diagnostic → String
  | .internal causes => "InternalError: " ++ ": ".intercalate causes
  | .lexical ⟨offset, cause⟩ => s!"Lex error at offset {offset}: " ++ cause.message
  | .grammar ⟨offset, cause⟩ => s!"Parse error at offset {offset}: " ++ cause.message
  | .typing error => "Type error: " ++ error.message
  | .runtime error => "Runtime error: " ++ error.message
  | .unfinished => "Runtime error: The evaluation was not finished"

def offset? : Diagnostic → Option Nat
  | .lexical error => some error.offset
  | .grammar error => some error.offset
  | _ => none

/-- A message under the line and column it is about, over that line and a caret
below the column. -/
def pointAt (text : List Char) (offset : Nat) (message : String) : String :=
  let place := Text.locate text offset
  s!"{place.line}:{place.column}: {message}\n    " ++ String.ofList place.content ++
    "\n    " ++ String.ofList (List.replicate (place.column - 1) ' ') ++ "^"

def render (error : Diagnostic) (text : String) : String :=
  match error with
  | .lexical ⟨offset, cause⟩ => pointAt text.toList offset cause.message
  | .grammar ⟨offset, cause⟩ => pointAt text.toList offset cause.message
  | _ => error.message

end Diagnostic

def Program.ofText (text : String) : Except Diagnostic Program := do
  let tokens ← (Token.scan text).mapError .lexical
  (Program.ofTokens tokens).mapError .grammar

end Plc
