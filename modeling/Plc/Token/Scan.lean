import Plc.Token.Basic
import Plc.Token.Error

/-! Cutting a text into tokens, one character at a time. At every moment there
is at most one token in progress, and its `Mode` decides what the next
character does to it: continue it, end it, or make it an error. -/

namespace Plc.Token

/-! ## Character classes -/

/-- The characters that separate tokens and belong to none. -/
def isBlank (character : Char) : Bool :=
  character == ' ' || character == '\x08' || character == '\n' ||
    character == '\r' || character == '\t'

def isLetter (character : Char) : Bool :=
  ('a' ≤ character && character ≤ 'z') || ('A' ≤ character && character ≤ 'Z')

def isDigit (character : Char) : Bool :=
  '0' ≤ character && character ≤ '9'

def isNonzeroDigit (character : Char) : Bool :=
  '1' ≤ character && character ≤ '9'

def isWordCharacter (character : Char) : Bool :=
  isLetter character || isDigit character || character == '_' || character == '-'

def isEscapable (character : Char) : Bool :=
  character == 'b' || character == 'n' || character == 'r' || character == 't' ||
    character == '\'' || character == '"' || character == '\\'

def isPair (first second : Char) : Bool :=
  match first with
  | '&' => second == '&'
  | '|' => second == '|'
  | '=' | '!' | '<' | '>' => second == '='
  | _ => false

/-! ## Modes -/

/-- What has been read of a token. -/
inductive Mode where
  /-- `@`, which a letter turns into an identifier. -/
  | sigil
  /-- `-`, which a digit turns into a number. -/
  | minus
  /-- A character that may be the first half of a two-character operator. -/
  | half (first : Char)
  | word
  /-- A number that starts with zero. -/
  | zero
  | integer
  /-- A number up to its decimal point. -/
  | point
  | fraction
  /-- The opening quote of a character literal. -/
  | quote
  /-- A character literal up to a backslash. -/
  | quoteEscape
  /-- A character literal that only lacks its closing quote. -/
  | quoted
  /-- A string literal that may be closed. -/
  | text
  /-- A string literal up to a backslash. -/
  | textEscape
  /-- A token that nothing can continue. -/
  | complete (kind : Kind)
  deriving DecidableEq, Repr

/-- The effect of a character on the token in progress. -/
inductive Move where
  /-- The character belongs to the token. -/
  | extend (mode : Mode)
  /-- The token ended before the character. -/
  | close (kind : Kind)
  deriving DecidableEq, Repr

namespace Mode

/-- The mode after the first character of a token, which is not blank. -/
def start (character : Char) : Mode :=
  if character = '@' then .sigil
  else if isLetter character then .word
  else if character = '-' then .minus
  else if character = '0' then .zero
  else if isDigit character then .integer
  else if character = '\'' then .quote
  else if character = '"' then .text
  else .half character

/-- The kind of a token that ends in this mode. -/
def finish : Mode → Except LexicalError.Cause Kind
  | .sigil | .minus | .half _ => .ok .operator
  | .word => .ok .identifier
  | .zero | .integer => .ok .integer
  | .fraction => .ok .decimal
  | .complete kind => .ok kind
  | .point => .error .missingFraction
  | .quote | .quoteEscape | .quoted => .error .unterminatedCharacter
  | .text | .textEscape => .error .unterminatedString

/-- What `character` does to a token in this mode. -/
def next (mode : Mode) (character : Char) : Except LexicalError.Cause Move :=
  match mode with
  | .sigil =>
      .ok (if isLetter character then .extend .word else .close .operator)
  | .minus =>
      .ok (if isNonzeroDigit character then .extend .integer else .close .operator)
  | .half first =>
      .ok (if isPair first character then .extend (.complete .operator)
        else .close .operator)
  | .word =>
      .ok (if isWordCharacter character then .extend .word else .close .identifier)
  | .zero =>
      if isDigit character then .error .leadingZero
      else .ok (if character = '.' then .extend .point else .close .integer)
  | .integer =>
      .ok (if isDigit character then .extend .integer
        else if character = '.' then .extend .point
        else .close .integer)
  | .point =>
      if isDigit character then .ok (.extend .fraction) else .error .missingFraction
  | .fraction =>
      .ok (if isDigit character then .extend .fraction else .close .decimal)
  | .quote =>
      if character = '\'' then .error .emptyCharacter
      else if character = '\n' ∨ character = '\r' ∨ character = '\t' then
        .error (.rawControl character)
      else .ok (.extend (if character = '\\' then .quoteEscape else .quoted))
  | .quoteEscape =>
      if isEscapable character then .ok (.extend .quoted)
      else .error (.invalidEscape character)
  | .quoted =>
      if character = '\'' then .ok (.extend (.complete .character))
      else .error .unterminatedCharacter
  | .text =>
      if character = '\n' ∨ character = '\r' then .error (.rawControl character)
      else if character = '"' then .ok (.extend (.complete .string))
      else .ok (.extend (if character = '\\' then .textEscape else .text))
  | .textEscape =>
      if isEscapable character then .ok (.extend .text)
      else .error (.invalidEscape character)
  | .complete kind => .ok (.close kind)

end Mode

/-! ## Scanning -/

/-- A token in progress: its characters so far, last one first. -/
structure Pending where
  mode : Mode
  offset : Nat
  characters : List Char
  deriving DecidableEq, Repr

namespace Pending

/-- Begins a token at `offset`, unless the character is blank. -/
def start? (offset : Nat) (character : Char) : Option Pending :=
  if isBlank character then none
  else some ⟨Mode.start character, offset, [character]⟩

def extend (pending : Pending) (mode : Mode) (character : Char) : Pending :=
  { pending with mode, characters := character :: pending.characters }

def close (pending : Pending) (kind : Kind) : Token :=
  ⟨kind, String.ofList pending.characters.reverse, pending.offset⟩

end Pending

/-- Scans `text`, which starts at byte `offset`, with perhaps a token in
progress. -/
def scanFrom (offset : Nat) (pending : Option Pending) :
    List Char → Except LexicalError (List Token)
  | [] =>
      match pending with
      | none => .ok []
      | some pending =>
          match pending.mode.finish with
          | .error cause => .error ⟨offset, cause⟩
          | .ok kind => .ok [pending.close kind]
  | character :: rest =>
      let after := offset + character.utf8Size
      match pending with
      | none => scanFrom after (Pending.start? offset character) rest
      | some pending =>
          match pending.mode.next character with
          | .error cause => .error ⟨offset, cause⟩
          | .ok (.extend mode) =>
              scanFrom after (some (pending.extend mode character)) rest
          | .ok (.close kind) =>
              (pending.close kind :: ·) <$>
                scanFrom after (Pending.start? offset character) rest

/-- The tokens of a text, or the first place where it stops being one. -/
def scan (text : String) : Except LexicalError (List Token) :=
  scanFrom 0 none text.toList

/-- The longer operator wins, and a minus before a digit belongs to the number. -/
example : scan "a<=-1" =
    .ok [⟨.identifier, "a", 0⟩, ⟨.operator, "<=", 1⟩, ⟨.integer, "-1", 3⟩] := rfl

/-- An error is at the first character that does not fit. -/
example : scan "'é" = .error ⟨3, .unterminatedCharacter⟩ := rfl

end Plc.Token
