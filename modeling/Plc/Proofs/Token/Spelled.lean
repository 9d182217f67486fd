import Plc.Literal

/-! Every number, character and string that is scanned spells a value. -/

namespace Plc

/-! ## Numbers -/

namespace Literal

structure IsNatural (text : List Char) : Prop where
  nonempty : text ≠ []
  digits : ∀ character ∈ text, Token.isDigit character = true

def IsInteger (text : List Char) : Prop :=
  IsNatural text ∨ ∃ digits, text = '-' :: digits ∧ IsNatural digits

theorem IsNatural.append {text digits : List Char} (natural : IsNatural text)
    (more : ∀ character ∈ digits, Token.isDigit character = true) : IsNatural (text ++ digits) := by
  refine ⟨by simp [natural.nonempty], fun character member => ?_⟩
  rcases List.mem_append.mp member with member | member
  · exact natural.digits character member
  · exact more character member

theorem IsInteger.append {text digits : List Char} (integer : IsInteger text)
    (more : ∀ character ∈ digits, Token.isDigit character = true) : IsInteger (text ++ digits) := by
  rcases integer with natural | ⟨rest, rfl, natural⟩
  · exact .inl (natural.append more)
  · exact .inr ⟨rest ++ digits, rfl, natural.append more⟩

theorem natural?_eq {text : List Char} (natural : IsNatural text) :
    natural? text = some (naturalValue text) := by
  have all : text.all Token.isDigit = true := List.all_eq_true.mpr natural.digits
  rw [natural?, if_pos ⟨natural.nonempty, all⟩]

theorem integer?_eq {text : List Char} (natural : IsNatural text) :
    integer? text = some (naturalValue text : Int) := by
  unfold integer?
  split
  · exact absurd (natural.digits '-' List.mem_cons_self) (by decide)
  · rw [natural?_eq natural]
    rfl

theorem integer?_minus {digits : List Char} (natural : IsNatural digits) :
    integer? ('-' :: digits) = some (-naturalValue digits : Int) := by
  rw [integer?, natural?_eq natural]
  rfl

theorem isSome_integer? {text : List Char} (integer : IsInteger text) :
    (integer? text).isSome = true := by
  rcases integer with natural | ⟨digits, rfl, natural⟩
  · rw [integer?_eq natural]
    rfl
  · rw [integer?_minus natural]
    rfl

theorem IsInteger.notMem {text : List Char} (integer : IsInteger text) {character : Char}
    (strange : Token.isDigit character = false) (unsigned : character ≠ '-') :
    character ∉ text := by
  have undigited {digits : List Char} (natural : IsNatural digits) : character ∉ digits := by
    intro member
    rw [natural.digits character member] at strange
    cases strange
  rcases integer with natural | ⟨digits, rfl, natural⟩
  · exact undigited natural
  · exact List.not_mem_cons_of_ne_of_not_mem unsigned (undigited natural)

theorem IsInteger.ne_point {text : List Char} (integer : IsInteger text) :
    ∀ character ∈ text, (character != '.') = true := by
  intro character member
  apply bne_iff_ne.mpr
  rintro rfl
  exact integer.notMem rfl (by decide) member

theorem decimal?_append_point {whole : List Char} (integer : IsInteger whole)
    (fraction : List Char) :
    decimal? (whole ++ '.' :: fraction) =
      (integer? (whole ++ fraction)).map fun digits => ⟨digits, fraction.length⟩ := by
  have taken : (whole ++ '.' :: fraction).takeWhile (· != '.') = whole := by
    rw [List.takeWhile_append_of_pos integer.ne_point]
    simp
  have dropped : (whole ++ '.' :: fraction).dropWhile (· != '.') = '.' :: fraction := by
    rw [List.dropWhile_append_of_pos integer.ne_point]
    simp
  rw [decimal?, taken, dropped]
  rfl

theorem isSome_decimal? {whole fraction : List Char} (integer : IsInteger whole)
    (digits : ∀ character ∈ fraction, Token.isDigit character = true) :
    (decimal? (whole ++ '.' :: fraction)).isSome = true := by
  rw [decimal?_append_point integer, Option.isSome_map]
  exact isSome_integer? (integer.append digits)

end Literal

/-! ## Tokens in progress -/

namespace Token

open Literal

/-- Whether a number, a character or a string spells a value. -/
def Spelled (token : Token) : Prop :=
  token.kind ≠ .identifier → token.kind ≠ .operator → (Literal.ofToken? token).isSome = true

/-- What has been read of a token in the mode. -/
def Mode.Holds (mode : Mode) (read : List Char) : Prop :=
  match mode with
  | .minus => read = ['-']
  | .zero | .integer => IsInteger read
  | .point => ∃ whole, read = whole ++ ['.'] ∧ IsInteger whole
  | .fraction => ∃ whole digits, read = whole ++ '.' :: digits ∧ IsInteger whole ∧
      ∀ character ∈ digits, isDigit character = true
  | .quote => read = ['\'']
  | .quoteEscape => read = ['\'', '\\']
  | .quoted => ∃ single, (single ≠ '\\' ∧ read = ['\'', single]) ∨ read = ['\'', '\\', single]
  | .complete .character => ∃ single, unescape (unquote read) = [single]
  | .complete .integer | .complete .decimal => False
  | _ => True

theorem isInteger_of_isDigit {character : Char} (digit : isDigit character = true) :
    IsInteger [character] := by
  refine .inl ⟨by simp, fun other member => ?_⟩
  rw [List.mem_singleton.mp member]
  exact digit

theorem isDigit_of_isNonzeroDigit {character : Char} (digit : isNonzeroDigit character = true) :
    isDigit character = true := by
  simp only [isNonzeroDigit, isDigit, Bool.and_eq_true, decide_eq_true_eq] at digit ⊢
  exact ⟨Char.le_trans (by decide) digit.1, digit.2⟩

theorem Mode.holds_start (character : Char) : (Mode.start character).Holds [character] := by
  unfold Mode.start
  split
  · trivial
  split
  · trivial
  split
  · rename_i same
    rw [same]
    rfl
  split
  · rename_i same
    rw [same]
    exact isInteger_of_isDigit (by decide)
  split
  · rename_i digit
    exact isInteger_of_isDigit digit
  split
  · rename_i same
    rw [same]
    rfl
  split <;> trivial

theorem extend_of_ite {condition : Prop} [Decidable condition] {mode after : Mode} {kind : Kind}
    {ε : Type} (extended : (Except.ok (if condition then .extend mode else .close kind) :
      Except ε Move) = .ok (.extend after)) : condition ∧ mode = after := by
  split at extended
  · rename_i holds
    cases extended
    exact ⟨holds, rfl⟩
  · cases extended

theorem close_of_ite {condition : Prop} [Decidable condition] {mode : Mode} {kind other : Kind}
    {ε : Type} (closes : (Except.ok (if condition then .extend mode else .close kind) :
      Except ε Move) = .ok (.close other)) : kind = other := by
  split at closes
  · cases closes
  · cases closes
    rfl

theorem unescape_singleton {single : Char} (plain : single ≠ '\\') :
    unescape [single] = [single] := by
  unfold unescape
  split <;> simp_all [unescape]

theorem holds_point {read : List Char} (holds : IsInteger read) :
    Mode.point.Holds (read ++ ['.']) :=
  ⟨read, rfl, holds⟩

theorem Mode.holds_next {mode after : Mode} {read : List Char} {character : Char}
    (holds : mode.Holds read) (extended : mode.next character = .ok (.extend after)) :
    after.Holds (read ++ [character]) := by
  cases mode with
  | sigil | word | half first =>
      rcases extend_of_ite extended with ⟨_, rfl⟩
      trivial
  | minus =>
      rcases extend_of_ite extended with ⟨digit, rfl⟩
      cases holds
      refine .inr ⟨[character], rfl, by simp, fun other member => ?_⟩
      rw [List.mem_singleton.mp member]
      exact isDigit_of_isNonzeroDigit digit
  | zero =>
      simp only [Mode.next] at extended
      split at extended
      · cases extended
      · rcases extend_of_ite extended with ⟨rfl, rfl⟩
        exact holds_point holds
  | integer =>
      simp only [Mode.next] at extended
      split at extended
      · rename_i digit
        cases extended
        exact holds.append (by simpa using digit)
      · rcases extend_of_ite extended with ⟨rfl, rfl⟩
        exact holds_point holds
  | point =>
      simp only [Mode.next] at extended
      split at extended
      · rename_i digit
        cases extended
        rcases holds with ⟨whole, rfl, integer⟩
        exact ⟨whole, [character], by simp, integer, by simpa using digit⟩
      · cases extended
  | fraction =>
      rcases extend_of_ite extended with ⟨digit, rfl⟩
      rcases holds with ⟨whole, digits, rfl, integer, all⟩
      refine ⟨whole, digits ++ [character], by simp, integer, fun other member => ?_⟩
      rcases List.mem_append.mp member with member | member
      · exact all other member
      · rw [List.mem_singleton.mp member]
        exact digit
  | quote =>
      simp only [Mode.next] at extended
      split at extended
      · cases extended
      split at extended
      · cases extended
      cases extended
      cases holds
      split
      · rename_i same
        rw [same]
        rfl
      · rename_i different
        exact ⟨character, .inl ⟨different, rfl⟩⟩
  | quoteEscape =>
      simp only [Mode.next] at extended
      split at extended
      · cases extended
        cases holds
        exact ⟨character, .inr rfl⟩
      · cases extended
  | quoted =>
      simp only [Mode.next] at extended
      split at extended
      · rename_i same
        cases extended
        subst same
        rcases holds with ⟨single, ⟨plain, rfl⟩ | rfl⟩
        · exact ⟨single, unescape_singleton plain⟩
        · exact ⟨escaped single, rfl⟩
      · cases extended
  | text =>
      simp only [Mode.next] at extended
      split at extended
      · cases extended
      split at extended
      · cases extended
        trivial
      cases extended
      split <;> trivial
  | textEscape =>
      simp only [Mode.next] at extended
      split at extended
      · cases extended
        trivial
      · cases extended
  | complete kind => cases extended

theorem Mode.spelled_of_finish {mode : Mode} {read : List Char} {kind : Kind}
    (holds : mode.Holds read) (finishes : mode.finish = .ok kind) (offset : Nat) :
    Spelled ⟨kind, String.ofList read, offset⟩ := by
  intro identifier operator
  cases mode with
  | sigil | minus | half _ =>
      cases finishes
      exact absurd rfl operator
  | word =>
      cases finishes
      exact absurd rfl identifier
  | zero | integer =>
      cases finishes
      simpa [Literal.ofToken?] using isSome_integer? holds
  | fraction =>
      cases finishes
      rcases holds with ⟨whole, digits, rfl, integer, all⟩
      simpa [Literal.ofToken?] using isSome_decimal? integer all
  | complete kind =>
      cases finishes
      cases kind with
      | identifier => exact absurd rfl identifier
      | operator => exact absurd rfl operator
      | integer | decimal => cases holds
      | character =>
          rcases holds with ⟨single, unescaped⟩
          simp [Literal.ofToken?, unescaped]
      | string => rfl
  | _ => cases finishes

theorem Mode.finish_of_close {mode : Mode} {character : Char} {kind : Kind}
    (closes : mode.next character = .ok (.close kind)) : mode.finish = .ok kind := by
  cases mode with
  | sigil | minus | half _ | word | fraction =>
      cases close_of_ite closes
      rfl
  | complete other =>
      cases closes
      rfl
  | zero =>
      simp only [Mode.next] at closes
      split at closes
      · cases closes
      · cases close_of_ite closes
        rfl
  | integer =>
      simp only [Mode.next] at closes
      split at closes
      · cases closes
      · cases close_of_ite closes
        rfl
  | point | quoteEscape | quoted | textEscape =>
      simp only [Mode.next] at closes
      split at closes <;> cases closes
  | quote | text =>
      simp only [Mode.next] at closes
      split at closes
      · cases closes
      split at closes <;> cases closes

/-! ## Scanning -/

/-- What has been read of the token in progress fits its mode. -/
def Pending.Holds (pending : Pending) : Prop :=
  pending.mode.Holds pending.characters.reverse

theorem Pending.holds_of_start? {offset : Nat} {character : Char} {pending : Pending}
    (started : Pending.start? offset character = some pending) : pending.Holds := by
  unfold Pending.start? at started
  split at started
  · cases started
  · cases started
    exact Mode.holds_start character

theorem Pending.Holds.extend {pending : Pending} {mode : Mode} {character : Char}
    (holds : pending.Holds) (extended : pending.mode.next character = .ok (.extend mode)) :
    (pending.extend mode character).Holds := by
  have next := Mode.holds_next holds extended
  rw [← List.reverse_cons] at next
  exact next

theorem Pending.Holds.spelled {pending : Pending} {kind : Kind} (holds : pending.Holds)
    (finishes : pending.mode.finish = .ok kind) : (pending.close kind).Spelled :=
  Mode.spelled_of_finish holds finishes pending.offset

theorem spelled_of_scanFrom {offset : Nat} {pending : Option Pending} {text : List Char}
    {tokens : List Token} (holds : ∀ token ∈ pending, token.Holds)
    (scanned : scanFrom offset pending text = .ok tokens) : ∀ token ∈ tokens, token.Spelled := by
  induction text generalizing offset pending tokens with
  | nil =>
      cases pending with
      | none =>
          cases scanned
          exact fun _ member => by cases member
      | some pending =>
          rw [scanFrom] at scanned
          split at scanned
          · cases scanned
          · rename_i kind finishes
            cases scanned
            intro token member
            rw [List.mem_singleton.mp member]
            exact (holds pending rfl).spelled finishes
  | cons character rest induction =>
      cases pending with
      | none =>
          rw [scanFrom] at scanned
          exact induction (fun _ => Pending.holds_of_start?) scanned
      | some pending =>
          rw [scanFrom] at scanned
          split at scanned
          · cases scanned
          · rename_i mode extended
            refine induction (fun token member => ?_) scanned
            cases member
            exact (holds pending rfl).extend extended
          · rename_i kind closes
            cases others : scanFrom (offset + character.utf8Size)
              (Pending.start? offset character) rest with
            | error error =>
                rw [others] at scanned
                cases scanned
            | ok scannedRest =>
                rw [others] at scanned
                cases scanned
                intro token member
                rcases List.mem_cons.mp member with rfl | member
                · exact (holds pending rfl).spelled (Mode.finish_of_close closes)
                · exact induction (fun _ => Pending.holds_of_start?) others token member

/-- Every token of a text spells what it should. -/
theorem spelled_of_scan {text : String} {tokens : List Token} (scanned : scan text = .ok tokens) :
    ∀ token ∈ tokens, token.Spelled :=
  spelled_of_scanFrom (fun _ impossible => by cases impossible) scanned

end Token

end Plc
