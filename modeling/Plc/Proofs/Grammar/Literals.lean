import Plc.Proofs.Grammar.Exact.Program
import Plc.Proofs.Token.Values

/-! Literals are read as they are meant: a value that is written in any of the ways the
scanner accepts is the value that the parser puts into the program. -/

namespace Plc

open Plc.Parser Literal

/-! ## Tokens of values -/

/-- The parser makes a literal of the token: in every place where a primary expression may
stand, and where the token is the whole expression. -/
structure Token.Gives (token : Token) (value : Literal) : Prop where
  primary : ∀ (expression : Parser Expr) (rest : List Token) (lastEnd id : Nat),
    (Parser.primary expression).run ⟨token :: rest, lastEnd, id⟩ =
      .ok (.literal ⟨id, token.offset⟩ value, ⟨rest, token.stop, id + 1⟩)
  alone : ∀ lastEnd id : Nat, Parser.expression.run ⟨[token], lastEnd, id⟩ =
    .ok (.literal ⟨id, token.offset⟩ value, ⟨[], token.stop, id + 1⟩)

theorem Parser.run_chain_of_nil {level : Operator.Level} {operand : Parser Expr}
    {cursor after : Cursor} {first : Expr} (ran : operand.run cursor = .ok (first, after))
    (ended : after.rest = []) : (chain level operand).run cursor = .ok (first, after) := by
  have steps : ∀ item? : Parser (Option Step), (many item?).run after = .ok ([], after) := by
    intro item?
    have opened : (many item?).run after = (manyUpTo item? after.rest.length).run after := rfl
    rw [opened, ended]
    rfl
  rw [chain, StateT.run_bind, ran]
  change ((many _).run after >>= _) = _
  rw [steps]
  rfl

theorem Token.gives_of_ofToken? {token : Token} {value : Literal}
    (spells : Literal.ofToken? token = some value) : token.Gives value where
  primary _ _ _ _ := run_primary_of_value rfl spells
  alone lastEnd id := by
    have primary : (Parser.primary (expressionUpTo 0)).run ⟨[token], lastEnd, id⟩ =
        .ok (.literal ⟨id, token.offset⟩ value, ⟨[], token.stop, id + 1⟩) :=
      run_primary_of_value rfl spells
    have opened : Parser.expression.run ⟨[token], lastEnd, id⟩ =
        (levels (expressionUpTo 0)).run ⟨[token], lastEnd, id⟩ := rfl
    rw [opened]
    exact run_chain_of_nil (run_chain_of_nil (run_chain_of_nil (run_chain_of_nil primary rfl)
      rfl) rfl) rfl

theorem Token.gives_string {text : List Char} {pieces : List (List Char)}
    (writes : List.Forall₂ (Writes ['"', '\\', '\n', '\r']) text pieces) (offset : Nat) :
    Token.Gives ⟨.string, String.ofList ('"' :: (pieces.flatten ++ ['"'])), offset⟩
      (.string (String.ofList text)) := by
  apply Token.gives_of_ofToken?
  simp only [Literal.ofToken?, String.toList_ofList, unquote_quoted]
  rw [unescape_flatten writes (by decide)]

theorem Token.gives_character {character : Char} {written : List Char}
    (writes : Writes ['\'', '\\', '\n', '\r', '\t'] character written) (offset : Nat) :
    Token.Gives ⟨.character, String.ofList ('\'' :: (written ++ ['\''])), offset⟩
      (.character character) := by
  have read := writes.unescape_append (by decide) []
  rw [List.append_nil] at read
  apply Token.gives_of_ofToken?
  simp only [Literal.ofToken?, String.toList_ofList, unquote_quoted, read]
  rfl

theorem Token.gives_integer {token : Token} {value : Int} (kind : token.kind = .integer)
    (denotes : Denotes token.literal.toList value) : token.Gives (.integer value) := by
  apply Token.gives_of_ofToken?
  rw [Literal.ofToken?, kind]
  dsimp only
  rw [integer?_of_denotes denotes]
  rfl

theorem Token.gives_decimal {token : Token} {whole fraction : List Char} {value : Int}
    (kind : token.kind = .decimal) (written : token.literal.toList = whole ++ '.' :: fraction)
    (integer : IsInteger whole) (denotes : Denotes (whole ++ fraction) value) :
    token.Gives (.decimal ⟨value, fraction.length⟩) := by
  apply Token.gives_of_ofToken?
  rw [Literal.ofToken?, kind]
  dsimp only
  rw [written, decimal?_append_point integer, integer?_of_denotes denotes]
  rfl

/-- What is written between quotes, each character as it is or as its escape, is scanned as
one token, of which the parser makes the literal that was meant. Numbers are worth what
their digits say, and no text has a token of which no literal can be made. -/
theorem Literal.read_written :
    (∀ (text : String) (pieces : List (List Char)),
      List.Forall₂ (Writes ['"', '\\', '\n', '\r']) text.toList pieces →
        ∃ token, Token.scan (String.ofList ('"' :: (pieces.flatten ++ ['"']))) = .ok [token] ∧
          token.kind = .string ∧ token.Gives (.string text)) ∧
    (∀ (character : Char) (written : List Char),
      Writes ['\'', '\\', '\n', '\r', '\t'] character written →
        ∃ token, Token.scan (String.ofList ('\'' :: (written ++ ['\'']))) = .ok [token] ∧
          token.kind = .character ∧ token.Gives (.character character)) ∧
    ∀ (text : String) (tokens : List Token), Token.scan text = .ok tokens →
      (∀ token ∈ tokens, token.kind = .integer →
        ∃ value, Denotes token.literal.toList value ∧ token.Gives (.integer value)) ∧
      (∀ token ∈ tokens, token.kind = .decimal →
        ∃ whole fraction value, token.literal.toList = whole ++ '.' :: fraction ∧
          IsNatural fraction ∧ Denotes (whole ++ fraction) value ∧
          token.Gives (.decimal ⟨value, fraction.length⟩)) ∧
      ∀ (error : GrammarError) (literal : String), Program.ofTokens tokens = .error error →
        error.cause ≠ .invalidLiteral literal := by
  refine ⟨fun text pieces writes => ?_, fun character written writes => ?_,
    fun text tokens scanned => ⟨fun token member kind => ?_, fun token member kind => ?_,
      fun error literal failed => ?_⟩⟩
  · have gives := Token.gives_string writes 0
    rw [String.ofList_toList] at gives
    have quoted := Token.quoted_mem_string writes
    rw [← String.toList_ofList (l := '"' :: (pieces.flatten ++ ['"']))] at quoted
    exact ⟨_, Token.scan_of_mem_language quoted, rfl, gives⟩
  · have quoted := Token.quoted_mem_character writes
    rw [← String.toList_ofList (l := '\'' :: (written ++ ['\'']))] at quoted
    exact ⟨_, Token.scan_of_mem_language quoted, rfl, Token.gives_character writes 0⟩
  · have language := Token.mem_language_of_scan scanned member
    rw [kind] at language
    rcases (Token.isInteger_of_mem_language language).denotes with ⟨value, denotes⟩
    exact ⟨value, denotes, Token.gives_integer kind denotes⟩
  · have language := Token.mem_language_of_scan scanned member
    rw [kind] at language
    rcases Token.exists_of_mem_decimal language with ⟨whole, fraction, written, integer, digits⟩
    rcases (integer.append digits.digits).denotes with ⟨value, denotes⟩
    exact ⟨whole, fraction, value, written, digits, denotes,
      Token.gives_decimal kind written integer denotes⟩
  · rcases Program.exists_of_error (Token.spelled_of_scan scanned) failed with
      ⟨_, rest, _, _, ⟨expected, rfl⟩ | ⟨token, _, rfl⟩, _⟩
    · cases rest with
      | nil => exact nofun
      | cons _ _ => exact nofun
    · exact nofun

/-- A quote before the closing one, and a decimal with a zero at its end. -/
theorem Literal.read_written_of_quote :
    (∃ token, Token.scan "\"é\\\"\"" = .ok [token] ∧ token.kind = .string ∧
      token.Gives (.string "é\"")) ∧
    (∃ token, Token.scan "'\\''" = .ok [token] ∧ token.kind = .character ∧
      token.Gives (.character '\'')) ∧
    Token.scan "-1.50" = .ok [⟨.decimal, "-1.50", 0⟩] ∧
    ∃ whole fraction value, "-1.50".toList = whole ++ '.' :: fraction ∧ IsNatural fraction ∧
      Denotes (whole ++ fraction) value ∧
      Token.Gives ⟨.decimal, "-1.50", 0⟩ (.decimal ⟨value, fraction.length⟩) := by
  have written : List.Forall₂ (Writes ['"', '\\', '\n', '\r']) "é\"".toList
      [['é'], ['\\', '"']] :=
    .cons (.plain (by decide)) (.cons (.escape (by decide)) .nil)
  have quote : Writes ['\'', '\\', '\n', '\r', '\t'] '\'' ['\\', '\''] := .escape (by decide)
  exact ⟨Literal.read_written.1 "é\"" _ written, Literal.read_written.2.1 '\'' _ quote, rfl,
    (Literal.read_written.2.2 "-1.50" _ rfl).2.1 ⟨.decimal, "-1.50", 0⟩ (.head _) rfl⟩

end Plc
