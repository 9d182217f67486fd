import Plc.Proofs.Token.Rejection

/-! Texts with a blank between them are scanned apart: the first one as if it ended there, the
second one as if it began there, only that all its places are further on. -/

namespace Plc

def LexicalError.shift (distance : Nat) (error : LexicalError) : LexicalError :=
  { error with offset := error.offset + distance }

namespace Token

open Text

/-! ## Texts that start later -/

def shift (distance : Nat) (token : Token) : Token :=
  { token with offset := token.offset + distance }

def Pending.shift (distance : Nat) (pending : Pending) : Pending :=
  { pending with offset := pending.offset + distance }

def shiftScanned (distance : Nat) :
    Except LexicalError (List Token) → Except LexicalError (List Token)
  | .ok tokens => .ok (tokens.map (shift distance))
  | .error error => .error (error.shift distance)

theorem shiftScanned_cons (distance : Nat) (token : Token)
    (scanned : Except LexicalError (List Token)) :
    shiftScanned distance ((token :: ·) <$> scanned) =
      (token.shift distance :: ·) <$> shiftScanned distance scanned := by
  cases scanned <;> rfl

theorem Pending.start?_shift (distance offset : Nat) (character : Char) :
    start? (offset + distance) character = (start? offset character).map (shift distance) := by
  unfold start?
  split <;> rfl

/-- No place in a text depends on where the text starts but for the distance to it. -/
theorem scanFrom_shift (distance offset : Nat) (pending : Option Pending) (text : List Char) :
    scanFrom (offset + distance) (pending.map (Pending.shift distance)) text =
      shiftScanned distance (scanFrom offset pending text) := by
  induction text generalizing offset pending with
  | nil =>
      cases pending with
      | none => rfl
      | some pending =>
          rw [Option.map_some, scanFrom, scanFrom, Pending.shift]
          cases pending.mode.finish <;> rfl
  | cons character rest induction =>
      have after : offset + distance + character.utf8Size =
          offset + character.utf8Size + distance := Nat.add_right_comm _ _ _
      cases pending with
      | none => rw [Option.map_none, scanFrom, scanFrom, after, Pending.start?_shift, induction]
      | some pending =>
          rw [Option.map_some, scanFrom, scanFrom, after, Pending.start?_shift, induction,
            Pending.shift]
          cases pending.mode.next character with
          | error cause => rfl
          | ok move =>
              cases move with
              | extend mode => exact induction _ (some (pending.extend mode character))
              | close kind => exact (shiftScanned_cons distance (pending.close kind) _).symm

/-! ## Texts that end at a blank -/

theorem isBlank_iff {character : Char} :
    isBlank character = true ↔ character ∈ [' ', '\x08', '\n', '\r', '\t'] := by
  simp [isBlank, or_assoc]

theorem classes_of_isBlank {blank : Char} (blanks : isBlank blank = true) :
    isLetter blank = false ∧ isDigit blank = false ∧ isNonzeroDigit blank = false ∧
      isWordCharacter blank = false ∧ blank ≠ '.' ∧ ∀ first, isPair first blank = false := by
  have member := isBlank_iff.mp blanks
  simp only [List.mem_cons, List.not_mem_nil, or_false] at member
  have pairs : ∀ first, isPair first blank = false := by
    intro first
    unfold isPair
    rcases member with rfl | rfl | rfl | rfl | rfl <;> split <;> rfl
  refine ⟨?_, ?_, ?_, ?_, ?_, pairs⟩
  all_goals rcases member with rfl | rfl | rfl | rfl | rfl <;> decide

/-- A token that may end with the text may also end before a blank, and is of the same kind. -/
theorem Mode.next_of_isBlank {mode : Mode} {kind : Kind} {blank : Char}
    (finishes : mode.finish = .ok kind) (blanks : isBlank blank = true) :
    mode.next blank = .ok (.close kind) := by
  rcases classes_of_isBlank blanks with
    ⟨notLetter, notDigit, notNonzero, notWord, notPoint, notPair⟩
  cases mode with
  | sigil | minus | half _ | word | zero | integer | fraction | complete _ =>
      cases finishes
      simp [next, notLetter, notDigit, notNonzero, notWord, notPoint, notPair]
  | point | quote | quoteEscape | quoted | text | textEscape => cases finishes

theorem exists_step_of_scanFrom {offset : Nat} {pending : Option Pending} {character : Char}
    {rest : List Char} {tokens : List Token}
    (scanned : scanFrom offset pending (character :: rest) = .ok tokens) :
    ∃ closed later others, tokens = closed ++ others ∧
      scanFrom (offset + character.utf8Size) later rest = .ok others ∧
      ∀ text, scanFrom offset pending (character :: text) =
        (closed ++ ·) <$> scanFrom (offset + character.utf8Size) later text := by
  cases pending with
  | none => exact ⟨[], _, tokens, rfl, scanned, fun _ => (nil_append_map _).symm⟩
  | some pending =>
      rw [scanFrom] at scanned
      cases moves : pending.mode.next character with
      | error cause =>
          rw [moves] at scanned
          cases scanned
      | ok move =>
          rw [moves] at scanned
          cases move with
          | extend mode =>
              refine ⟨[], _, tokens, rfl, scanned, fun text => ?_⟩
              rw [scanFrom, moves]
              exact (nil_append_map _).symm
          | close kind =>
              cases others : scanFrom (offset + character.utf8Size)
                (Pending.start? offset character) rest with
              | error error =>
                  rw [others] at scanned
                  cases scanned
              | ok scannedRest =>
                  rw [others] at scanned
                  cases scanned
                  refine ⟨[pending.close kind], _, scannedRest, rfl, others, fun text => ?_⟩
                  rw [scanFrom, moves]
                  rfl

theorem scanFrom_append_blank {offset : Nat} {pending : Option Pending} {text : List Char}
    {tokens : List Token} (scanned : scanFrom offset pending text = .ok tokens) {blank : Char}
    (blanks : isBlank blank = true) (after : List Char) :
    scanFrom offset pending (text ++ blank :: after) =
      (tokens ++ ·) <$> scanFrom (offset + byteLength text + blank.utf8Size) none after := by
  induction text generalizing offset pending tokens with
  | nil =>
      have begins : Pending.start? offset blank = none := if_pos blanks
      cases pending with
      | none =>
          cases scanned
          rw [List.nil_append, scanFrom, begins, byteLength_nil, Nat.add_zero]
          exact (nil_append_map _).symm
      | some pending =>
          rw [scanFrom] at scanned
          cases finishes : pending.mode.finish with
          | error cause =>
              rw [finishes] at scanned
              cases scanned
          | ok kind =>
              rw [finishes] at scanned
              cases scanned
              rw [List.nil_append, scanFrom, Mode.next_of_isBlank finishes blanks, begins,
                byteLength_nil, Nat.add_zero]
              rfl
  | cons character rest induction =>
      rcases exists_step_of_scanFrom scanned with ⟨closed, later, others, rfl, continued, steps⟩
      rw [List.cons_append, steps, induction continued, byteLength_cons, ← Nat.add_assoc]
      cases scanFrom (offset + character.utf8Size + byteLength rest + blank.utf8Size) none after with
      | error error => rfl
      | ok tokens =>
          exact congrArg Except.ok (List.append_assoc closed others tokens).symm

/-! ## Two texts -/

/-- A text that can be scanned and a blank only move what follows: its tokens come after those
of the text, its error stays its error. -/
theorem scan_append_blank {before : String} {tokens : List Token}
    (scanned : scan before = .ok tokens) {blank : Char}
    (blanks : blank ∈ [' ', '\x08', '\n', '\r', '\t']) (after : String) :
    ((∃ all, scan (before ++ String.singleton blank ++ after) = .ok all) ↔
      ∃ others, scan after = .ok others) ∧
    (∀ others, scan after = .ok others →
      scan (before ++ String.singleton blank ++ after) =
        .ok (tokens ++ others.map (shift (before.utf8ByteSize + blank.utf8Size)))) ∧
    ∀ error, scan after = .error error →
      scan (before ++ String.singleton blank ++ after) =
        .error (error.shift (before.utf8ByteSize + blank.utf8Size)) := by
  have apart : scan (before ++ String.singleton blank ++ after) =
      (tokens ++ ·) <$> shiftScanned (before.utf8ByteSize + blank.utf8Size) (scan after) := by
    have distance : byteLength before.toList = before.utf8ByteSize := by
      rw [← utf8ByteSize_ofList, String.ofList_toList]
    have characters : (before ++ String.singleton blank ++ after).toList =
        before.toList ++ blank :: after.toList := by simp
    rw [scan, characters, scanFrom_append_blank scanned (isBlank_iff.mpr blanks), distance,
      Nat.add_assoc, scan]
    exact congrArg _ (scanFrom_shift _ 0 none after.toList)
  have succeeds : ∀ others, scan after = .ok others →
      scan (before ++ String.singleton blank ++ after) =
        .ok (tokens ++ others.map (shift (before.utf8ByteSize + blank.utf8Size))) := by
    intro others alone
    rw [apart, alone]
    rfl
  have fails : ∀ error, scan after = .error error →
      scan (before ++ String.singleton blank ++ after) =
        .error (error.shift (before.utf8ByteSize + blank.utf8Size)) := by
    intro error alone
    rw [apart, alone]
    rfl
  refine ⟨⟨?_, ?_⟩, succeeds, fails⟩
  · rintro ⟨all, given⟩
    cases alone : scan after with
    | ok others => exact ⟨others, rfl⟩
    | error error =>
        rw [fails error alone] at given
        cases given
  · rintro ⟨others, alone⟩
    exact ⟨_, succeeds others alone⟩

/-- What would be one operator is two around a tab, and an error after the tab is moved by the
three bytes before it and its own. -/
theorem scan_append_blank_of_operator :
    scan "é<" = .ok [⟨.operator, "é", 0⟩, ⟨.operator, "<", 2⟩] ∧
    scan ("é<" ++ String.singleton '\t' ++ "=1") =
      .ok [⟨.operator, "é", 0⟩, ⟨.operator, "<", 2⟩, ⟨.operator, "=", 4⟩, ⟨.integer, "1", 5⟩] ∧
    scan ("é<" ++ String.singleton '\t' ++ "= 'é") = .error ⟨9, .unterminatedCharacter⟩ := by
  have scanned : scan "é<" = .ok [⟨.operator, "é", 0⟩, ⟨.operator, "<", 2⟩] := rfl
  have tab : '\t' ∈ [' ', '\x08', '\n', '\r', '\t'] := by decide
  exact ⟨scanned, (scan_append_blank scanned tab "=1").2.1 _ rfl,
    (scan_append_blank scanned tab "= 'é").2.2 _ rfl⟩

end Token

end Plc
