import Plc.Proofs.Token.Longest

/-! Where a text stops being one: all that comes before can be completed, and nothing that
goes on with the next character can. -/

namespace Plc.Token

open Text

/-! ## Completing a token -/

/-- A text that completes the token in progress, whatever its kind. -/
def Mode.completion : Mode → List Char
  | .point => ['0']
  | .quote => ['a', '\'']
  | .quoteEscape => ['n', '\'']
  | .quoted => ['\'']
  | .text => ['"']
  | .textEscape => ['n', '"']
  | _ => []

theorem Mode.through?_completion (mode : Mode) :
    ∃ last kind, mode.through? mode.completion = some last ∧ last.finish = .ok kind := by
  cases mode <;> exact ⟨_, _, rfl, rfl⟩

theorem exists_completion (offset : Nat) (pending : Option Pending) :
    ∃ more tokens, scanFrom offset pending more = .ok tokens := by
  cases pending with
  | none => exact ⟨[], [], rfl⟩
  | some pending =>
      rcases pending with ⟨mode, start, read⟩
      rcases mode.through?_completion with ⟨last, kind, reached, finishes⟩
      have scanned := scanFrom_of_through? reached offset start read []
      rw [List.append_nil, scanFrom] at scanned
      simp only [finishes] at scanned
      exact ⟨mode.completion, _, scanned⟩

/-! ## The place of an error -/

/-- Of a text, `before` can be completed, but not together with the first character of
`after`, with which there is this error. -/
structure RejectedAt (offset : Nat) (pending : Option Pending) (before after : List Char)
    (error : LexicalError) : Prop where
  place : error.offset = offset + byteLength before
  completable : ∃ more tokens, scanFrom offset pending (before ++ more) = .ok tokens
  rejected : ∀ next ∈ after.head?, ∀ more,
    scanFrom offset pending (before ++ next :: more) = .error error

variable {offset : Nat} {pending : Pending} {character : Char} {before after : List Char}
  {error : LexicalError}

theorem RejectedAt.here {cause : LexicalError.Cause}
    (rejected : ∀ next ∈ after.head?, ∀ more,
      scanFrom offset (some pending) (next :: more) = .error ⟨offset, cause⟩) :
    RejectedAt offset (some pending) [] after ⟨offset, cause⟩ :=
  ⟨rfl, exists_completion offset (some pending), rejected⟩

theorem RejectedAt.cons {earlier later : Option Pending} {closed : List Token}
    (rest : RejectedAt (offset + character.utf8Size) later before after error)
    (steps : ∀ text, scanFrom offset earlier (character :: text) =
      (closed ++ ·) <$> scanFrom (offset + character.utf8Size) later text) :
    RejectedAt offset earlier (character :: before) after error := by
  rcases rest.completable with ⟨more, tokens, scanned⟩
  refine ⟨?_, ⟨more, closed ++ tokens, ?_⟩, fun next member more => ?_⟩
  · rw [rest.place, byteLength_cons, Nat.add_assoc]
  · rw [List.cons_append, steps, scanned]
    rfl
  · rw [List.cons_append, steps, rest.rejected next member more]
    rfl

theorem nil_append_map (scanned : Except LexicalError (List Token)) :
    (([] : List Token) ++ ·) <$> scanned = scanned := by
  cases scanned <;> rfl

theorem exists_rejectedAt {offset : Nat} {pending : Option Pending} {text : List Char}
    {error : LexicalError} (failed : scanFrom offset pending text = .error error) :
    ∃ before after, text = before ++ after ∧ RejectedAt offset pending before after error := by
  induction text generalizing offset pending with
  | nil =>
      cases pending with
      | none => cases failed
      | some pending =>
          rw [scanFrom] at failed
          split at failed
          · cases failed
            exact ⟨[], [], rfl, .here fun _ impossible => by cases impossible⟩
          · cases failed
  | cons character rest induction =>
      cases pending with
      | none =>
          rw [scanFrom] at failed
          rcases induction failed with ⟨before, after, rfl, rejected⟩
          exact ⟨character :: before, after, rfl, rejected.cons fun _ => (nil_append_map _).symm⟩
      | some pending =>
          cases moves : pending.mode.next character with
          | error cause =>
              have steps : ∀ more, scanFrom offset (some pending) (character :: more) =
                  .error ⟨offset, cause⟩ := by
                intro more
                rw [scanFrom]
                simp only [moves]
              rw [steps] at failed
              cases failed
              refine ⟨[], character :: rest, rfl, .here fun next member more => ?_⟩
              cases member
              exact steps more
          | ok move =>
              cases move with
              | extend mode =>
                  have steps : ∀ text, scanFrom offset (some pending) (character :: text) =
                      scanFrom (offset + character.utf8Size)
                        (some (pending.extend mode character)) text := by
                    intro text
                    rw [scanFrom]
                    simp only [moves]
                  rw [steps] at failed
                  rcases induction failed with ⟨before, after, rfl, rejected⟩
                  exact ⟨character :: before, after, rfl,
                    rejected.cons fun text => (steps text).trans (nil_append_map _).symm⟩
              | close kind =>
                  have steps : ∀ text, scanFrom offset (some pending) (character :: text) =
                      ([pending.close kind] ++ ·) <$> scanFrom (offset + character.utf8Size)
                        (Pending.start? offset character) text := by
                    intro text
                    rw [scanFrom]
                    simp only [moves]
                    rfl
                  rw [steps] at failed
                  cases inner : scanFrom (offset + character.utf8Size)
                    (Pending.start? offset character) rest with
                  | ok tokens =>
                      rw [inner] at failed
                      cases failed
                  | error found =>
                      rw [inner] at failed
                      cases failed
                      rcases induction inner with ⟨before, after, rfl, rejected⟩
                      exact ⟨character :: before, after, rfl, rejected.cons steps⟩

/-- An error is at the end of a part of the text that can be completed to one that has
tokens. Any text that goes on with the character there has the same error. -/
theorem scan_error_position {text : String} {error : LexicalError}
    (failed : scan text = .error error) :
    String.Pos.Raw.IsValid text ⟨error.offset⟩ ∧ error.offset ≤ text.utf8ByteSize ∧
    ∃ before after : String, text = before ++ after ∧ before.utf8ByteSize = error.offset ∧
      (∃ more tokens, scan (before ++ more) = .ok tokens) ∧
      ∀ next rest, after = String.singleton next ++ rest →
        ∀ more, scan (before ++ String.singleton next ++ more) = .error error := by
  rcases exists_rejectedAt failed with ⟨before, after, same, rejected⟩
  have split : text = String.ofList before ++ String.ofList after := by
    rw [← String.ofList_append, ← same, String.ofList_toList]
  have place : (String.ofList before).utf8ByteSize = error.offset := by
    rw [utf8ByteSize_ofList, rejected.place, Nat.zero_add]
  have boundary : String.Pos.Raw.IsValid text ⟨error.offset⟩ := by
    refine String.Pos.Raw.isValid_iff_exists_append.mpr ⟨_, _, split, ?_⟩
    rw [← place]
    rfl
  refine ⟨boundary, boundary.le_utf8ByteSize, String.ofList before, String.ofList after, split,
    place, ?_, fun next rest continues more => ?_⟩
  · rcases rejected.completable with ⟨more, tokens, scanned⟩
    refine ⟨String.ofList more, tokens, ?_⟩
    rw [scan, ← String.ofList_append, String.toList_ofList]
    exact scanned
  · have first : next ∈ after.head? := by
      have same := congrArg String.toList continues
      rw [String.toList_ofList] at same
      rw [same]
      simp
    have found := rejected.rejected next first more.toList
    rw [scan]
    simpa using found

/-- A backslash before a character that has no escape: the backslash could be completed. -/
theorem scan_error_position_of_escape :
    scan "'\\é'" = .error ⟨2, .invalidEscape 'é'⟩ ∧
      ∃ before after : String, "'\\é'" = before ++ after ∧ before.utf8ByteSize = 2 ∧
        (∃ more tokens, scan (before ++ more) = .ok tokens) ∧
        ∀ next rest, after = String.singleton next ++ rest →
          ∀ more, scan (before ++ String.singleton next ++ more) =
            .error ⟨2, .invalidEscape 'é'⟩ := by
  have failed : scan "'\\é'" = .error ⟨2, .invalidEscape 'é'⟩ := rfl
  exact ⟨failed, (scan_error_position failed).2.2⟩

end Plc.Token
