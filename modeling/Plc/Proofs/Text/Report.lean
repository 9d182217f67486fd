import Plc.Diagnostic
import Plc.Proofs.Grammar.Exact.Program
import Plc.Proofs.Grammar.Wanted
import Plc.Proofs.Text.Digits
import Plc.Proofs.Text.Lines
import Plc.Proofs.Token.Rejection
import Plc.Proofs.Token.Tiling
import Plc.Proofs.Token.Values

/-! Errors as they are shown to the author of a text: in three lines, the last of which points at
the byte that the error is about. -/

namespace Plc

/-! ## Texts of one line -/

namespace Text

def OneLine (text : String) : Prop :=
  '\n' ∉ text.toList

instance (text : String) : Decidable (OneLine text) :=
  inferInstanceAs (Decidable (¬_))

variable {first second : String}

@[simp] theorem oneLine_append : OneLine (first ++ second) ↔ OneLine first ∧ OneLine second := by
  simp [OneLine]

theorem newline_notMem_toDigits {base : Nat} (several : 1 < base) (number : Nat) :
    '\n' ∉ Nat.toDigits base number := by
  intro member
  rcases exists_digitChar_of_mem_toDigits several member with ⟨digit, same⟩
  exact Nat.digitChar_ne '\n' (by decide) same.symm

@[simp] theorem oneLine_toString (number : Nat) : OneLine (toString number) := by
  rw [OneLine, Nat.toString_eq_ofList_toDigits, String.toList_ofList]
  exact newline_notMem_toDigits (by decide) number

@[simp] theorem oneLine_codePoint (character : Char) : OneLine (codePoint character) := by
  have digits := newline_notMem_toDigits (by decide : 1 < 16) character.toNat
  simp [codePoint, OneLine, digits]

@[simp] theorem oneLine_asciiEscape (character : Char) : OneLine (asciiEscape character) := by
  rw [asciiEscape]
  split
  · rename_i spelling short
    unfold shortEscape? at short
    split at short <;> cases short <;> decide
  · split
    · rename_i printable
      have plain : '\n' ≠ character := by
        rintro rfl
        exact absurd printable (by decide)
      simp [OneLine, Char.toString, plain]
    · exact oneLine_codePoint character

end Text

open Text

@[simp] theorem LexicalError.Cause.oneLine_message (cause : LexicalError.Cause) :
    OneLine cause.message := by
  rw [message.eq_def]
  cases cause with
  | invalidEscape character | rawControl character =>
      rw [oneLine_append, oneLine_append]
      exact ⟨⟨by decide, oneLine_asciiEscape character⟩, by decide⟩
  | _ => decide

theorem GrammarError.oneLine_of_mem_requirements :
    ∀ wanted ∈ GrammarError.requirements, OneLine wanted := by
  decide

def GrammarError.Cause.quoted? : GrammarError.Cause → Option String
  | .expected _ found => found
  | .trailingToken literal | .invalidLiteral literal => some literal

theorem GrammarError.Cause.oneLine_message {cause : GrammarError.Cause}
    (asks : ∀ wanted ∈ cause.wanted?, OneLine wanted)
    (quotes : ∀ literal ∈ cause.quoted?, OneLine literal) : OneLine cause.message := by
  rw [message.eq_def]
  cases cause with
  | expected wanted found =>
      have asked := asks wanted rfl
      cases found with
      | some literal =>
          have quoted := quotes literal rfl
          simp only [oneLine_append, asked, quoted]
          decide
      | none =>
          simp only [oneLine_append, asked]
          decide
  | trailingToken literal | invalidLiteral literal =>
      have quoted := quotes literal rfl
      simp only [oneLine_append, quoted]
      decide

/-! ## Literals of tokens -/

namespace Token

theorem Mode.extension?_newline (mode : Mode) : mode.extension? '\n' = none := by
  cases mode with
  | half first =>
      have single : isPair first '\n' = false := by
        unfold isPair
        split <;> rfl
      simp [extension?, next, single]
  | _ => rfl

/-- No token has a newline in it: a newline ends every token or is an error. -/
theorem Mode.newline_notMem_of_through? {mode last : Mode} {text : List Char}
    (through : mode.through? text = some last) : '\n' ∉ text := by
  induction text generalizing mode with
  | nil => simp
  | cons head tail induction =>
      rw [through?] at through
      intro member
      rcases List.mem_cons.mp member with rfl | member
      · rw [extension?_newline] at through
        cases through
      · rcases Option.bind_eq_some_iff.mp through with ⟨after, _, rest⟩
        exact induction rest member

theorem oneLine_literal {text : String} {tokens : List Token} (scanned : scan text = .ok tokens)
    {token : Token} (member : token ∈ tokens) : OneLine token.literal := by
  rcases Kind.mem_language_iff.mp (mem_language_of_scan scanned member) with ⟨mode, read, -⟩
  unfold readMode? at read
  split at read
  · cases read
  · split at read
    · cases read
    · rename_i first rest literal notBlank
      rw [OneLine, literal, List.mem_cons, not_or]
      refine ⟨?_, Mode.newline_notMem_of_through? read⟩
      rintro rfl
      exact notBlank rfl

end Token

/-! ## Errors of texts -/

namespace Diagnostic

/-- The error is about the byte at `offset`, for this reason. -/
inductive Reports : Diagnostic → Nat → String → Prop
  | lexical (error : LexicalError) : Reports (.lexical error) error.offset error.cause.message
  | grammar (error : GrammarError) : Reports (.grammar error) error.offset error.cause.message

end Diagnostic

/-- The offset is between two parts of the text. -/
def Text.Splits (text : String) (offset : Nat) : Prop :=
  ∃ before after, text.toList = before ++ after ∧ byteLength before = offset

namespace Token

variable {text : String} {tokens : List Token} {token : Token}

theorem splits_of_scan_error {error : LexicalError} (failed : scan text = .error error) :
    Splits text error.offset := by
  rcases exists_rejectedAt failed with ⟨before, after, same, rejected⟩
  exact ⟨before, after, same, by rw [rejected.place, Nat.zero_add]⟩

theorem splits_offset (scanned : scan text = .ok tokens) (member : token ∈ tokens) :
    Splits text token.offset := by
  rcases exists_append_of_scan scanned member with ⟨before, after, rfl, starts, -⟩
  refine ⟨before.toList, token.literal.toList ++ after.toList, by simp, ?_⟩
  rw [← starts, ← utf8ByteSize_ofList, String.ofList_toList]

theorem splits_stop (scanned : scan text = .ok tokens) (member : token ∈ tokens) :
    Splits text token.stop := by
  rcases exists_append_of_scan scanned member with ⟨before, after, rfl, starts, -⟩
  refine ⟨(before ++ token.literal).toList, after.toList, by simp, ?_⟩
  rw [stop_eq starts, ← utf8ByteSize_ofList, String.ofList_toList]

end Token

theorem splits_endAfter {text : String} {tokens read : List Token}
    (scanned : Token.scan text = .ok tokens) (among : ∀ token ∈ read, token ∈ tokens) :
    Splits text (endAfter 0 read) := by
  unfold endAfter
  cases last : read.getLast? with
  | none => exact ⟨[], text.toList, rfl, rfl⟩
  | some token => exact Token.splits_stop scanned (among token (List.mem_of_getLast? last))

/-- An error is at a token or after the last one that was read, and its message is of one line. -/
theorem Program.splits_of_parse_error {text : String} {tokens : List Token} {error : GrammarError}
    (scanned : Token.scan text = .ok tokens) (failed : Program.ofTokens tokens = .error error) :
    Splits text error.offset ∧ OneLine error.cause.message := by
  have asks : ∀ wanted ∈ error.cause.wanted?, OneLine wanted := fun wanted asked =>
    GrammarError.oneLine_of_mem_requirements wanted
      (Program.wanted_mem_requirements failed wanted asked)
  rcases Program.exists_of_error (Token.spelled_of_scan scanned) failed with
    ⟨read, rest, rfl, -, place, -⟩
  -- only the next token is quoted
  have next {token : Token} (first : rest.head? = some token) :
      Splits text token.offset ∧ ∀ literal ∈ some token.literal, OneLine literal := by
    have member := List.mem_append_right read (List.mem_of_head? first)
    refine ⟨Token.splits_offset scanned member, fun literal quoted => ?_⟩
    cases quoted
    exact Token.oneLine_literal scanned member
  rcases place with ⟨expected, same⟩ | ⟨token, first, rfl⟩
  · cases first : rest.head? with
    | none =>
        rw [first] at same
        subst same
        exact ⟨splits_endAfter scanned fun _ => List.mem_append_left rest,
          GrammarError.Cause.oneLine_message asks nofun⟩
    | some token =>
        rw [first] at same
        subst same
        exact ⟨(next first).1, GrammarError.Cause.oneLine_message asks (next first).2⟩
  · exact ⟨(next first).1, GrammarError.Cause.oneLine_message asks (next first).2⟩

namespace Diagnostic

theorem exists_reports {text : String} {error : Diagnostic}
    (failed : Program.ofText text = .error error) :
    ∃ offset reason, error.Reports offset reason ∧ Splits text offset ∧ OneLine reason := by
  unfold Program.ofText at failed
  cases scanned : Token.scan text with
  | error found =>
      rw [scanned] at failed
      cases failed
      exact ⟨_, _, .lexical found, Token.splits_of_scan_error scanned,
        found.cause.oneLine_message⟩
  | ok tokens =>
      rw [scanned] at failed
      change (Program.ofTokens tokens).mapError .grammar = .error error at failed
      cases parsed : Program.ofTokens tokens with
      | error found =>
          rw [parsed] at failed
          cases failed
          exact ⟨_, _, .grammar found, Program.splits_of_parse_error scanned parsed⟩
      | ok program =>
          rw [parsed] at failed
          cases failed

theorem render_of_reports {error : Diagnostic} {offset : Nat} {reason : String}
    (reports : error.Reports offset reason) (text : String) :
    error.offset? = some offset ∧ error.render text = pointAt text.toList offset reason := by
  cases reports <;> exact ⟨rfl, rfl⟩

theorem lines_pointAt {text : List Char} {offset : Nat} {place : Place}
    (located : locate text offset = place) {reason : String} (oneLine : OneLine reason) :
    lines (pointAt text offset reason).toList =
      [s!"{place.line}:{place.column}: {reason}".toList,
        List.replicate 4 ' ' ++ place.content,
        List.replicate (4 + (place.column - 1)) ' ' ++ ['^']] := by
  have heading : s!"{place.line}:{place.column}: {reason}" =
      toString place.line ++ ":" ++ toString place.column ++ ": " ++ reason := rfl
  have indent : "\n    ".toList = '\n' :: List.replicate 4 ' ' := by decide
  have parts : (pointAt text offset reason).toList = ['\n'].intercalate
      [s!"{place.line}:{place.column}: {reason}".toList,
        List.replicate 4 ' ' ++ place.content,
        List.replicate (4 + (place.column - 1)) ' ' ++ ['^']] := by
    have shown : pointAt text offset reason =
        s!"{place.line}:{place.column}: {reason}" ++ "\n    " ++ String.ofList place.content ++
          "\n    " ++ String.ofList (List.replicate (place.column - 1) ' ') ++ "^" := by
      rw [← located]
      rfl
    rw [shown]
    simp only [String.toList_append, String.toList_ofList, indent, List.replicate_add]
    simp [List.intercalate]
  have inside : '\n' ∉ place.content := located ▸ newline_notMem_content text offset
  have above : OneLine s!"{place.line}:{place.column}: {reason}" := by
    rw [heading]
    simp only [oneLine_append, oneLine_toString, oneLine, true_and, and_true]
    decide
  rw [lines, parts, List.splitOn_intercalate]
  · intro line member
    simp only [List.mem_cons, List.not_mem_nil, or_false] at member
    rcases member with rfl | rfl | rfl
    · exact above
    · simp [inside]
    · simp
  · simp

/-- Whatever is wrong with a text, the error is shown in three lines: the line and column with the
reason, the line of the text that the error is in, and a mark below the column. They are the
line and column of the byte that the error is about, and lead back to it. -/
theorem render_points {text : String} {error : Diagnostic}
    (failed : Program.ofText text = .error error) :
    ∃ (offset : Nat) (reason : String) (place : Place), error.Reports offset reason ∧
      error.offset? = some offset ∧ place.IsAt text offset ∧
      lines (error.render text).toList =
        [s!"{place.line}:{place.column}: {reason}".toList,
          List.replicate 4 ' ' ++ place.content,
          List.replicate (4 + (place.column - 1)) ' ' ++ ['^']] := by
  rcases exists_reports failed with ⟨offset, reason, reports, ⟨before, after, same, rfl⟩, oneLine⟩
  rcases render_of_reports reports text with ⟨known, rendered⟩
  refine ⟨_, reason, _, reports, known, locate_isAt same, ?_⟩
  rw [rendered]
  exact lines_pointAt rfl oneLine

/-- An error in the second line, behind a letter of two bytes. -/
theorem render_points_of_accent :
    Program.ofText "VAR a;\nVAL s = \"é\" x;" =
      .error (.grammar ⟨20, .expected ";" (some "x")⟩) ∧
    ∃ place : Place, place.IsAt "VAR a;\nVAL s = \"é\" x;" 20 ∧
      ∃ heading, lines ((grammar ⟨20, .expected ";" (some "x")⟩).render
          "VAR a;\nVAL s = \"é\" x;").toList =
        [heading, List.replicate 4 ' ' ++ place.content,
          List.replicate (4 + (place.column - 1)) ' ' ++ ['^']] := by
  have scanned : Token.scan "VAR a;\nVAL s = \"é\" x;" = .ok
      [⟨.identifier, "VAR", 0⟩, ⟨.identifier, "a", 4⟩, ⟨.operator, ";", 5⟩,
        ⟨.identifier, "VAL", 7⟩, ⟨.identifier, "s", 11⟩, ⟨.operator, "=", 13⟩,
        ⟨.string, "\"é\"", 15⟩, ⟨.identifier, "x", 20⟩, ⟨.operator, ";", 21⟩] := by
    decide +kernel
  have failed : Program.ofText "VAR a;\nVAL s = \"é\" x;" =
      .error (.grammar ⟨20, .expected ";" (some "x")⟩) := by
    rw [Program.ofText, scanned]
    rfl
  rcases render_points failed with ⟨offset, reason, place, reports, known, isAt, rendered⟩
  cases known
  exact ⟨failed, place, isAt, _, rendered⟩

end Diagnostic

end Plc
