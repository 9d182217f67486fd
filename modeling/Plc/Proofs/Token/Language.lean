import Mathlib.Computability.Language
import Plc.Token.Scan

/-! The texts that are tokens of each kind, as regular languages, and what is missing of a
token in progress.

    identifier  =  [ "@" ] letter { letter | digit | "_" | "-" }
    integer     =  "0"  |  [ "-" ] nonzero { digit }
    decimal     =  integer "." digit { digit }
    character   =  "'" ( plain | "\" escapable ) "'"
    string      =  '"' { plain | "\" escapable } '"'
    operator    =  "&&"  |  "||"  |  "=="  |  "!="  |  "<="  |  ">="  |  any other character
-/

namespace Plc.Token

open scoped Computability

/-! ## Languages of characters -/

def one (property : Char → Bool) : Language Char :=
  {text | ∃ character, property character = true ∧ text = [character]}

abbrev char (character : Char) : Language Char :=
  one (· == character)

section

variable {property : Char → Bool} {character : Char} {text : List Char}
  {language other : Language Char}

@[simp] theorem nil_mem_one : [] ∈ one property ↔ False := by
  constructor
  · rintro ⟨single, holds, same⟩
    cases same
  · exact False.elim

@[simp] theorem cons_mem_one :
    character :: text ∈ one property ↔ property character = true ∧ text = [] := by
  constructor
  · rintro ⟨single, holds, same⟩
    cases same
    exact ⟨holds, rfl⟩
  · rintro ⟨holds, rfl⟩
    exact ⟨character, holds, rfl⟩

@[simp] theorem nil_mem_mul : [] ∈ language * other ↔ [] ∈ language ∧ [] ∈ other := by
  simp [Language.mem_mul]

@[simp] theorem cons_mem_one_mul :
    character :: text ∈ one property * language ↔
      property character = true ∧ text ∈ language := by
  rw [Language.mem_mul]
  constructor
  · rintro ⟨front, ⟨single, holds, rfl⟩, back, member, same⟩
    cases same
    exact ⟨holds, member⟩
  · rintro ⟨holds, member⟩
    exact ⟨[character], ⟨character, holds, rfl⟩, text, member, rfl⟩

theorem kstar_mul (item language : Language Char) :
    item∗ * language = language + item * (item∗ * language) := by
  conv_lhs => rw [← Language.one_add_self_mul_kstar_eq_kstar]
  rw [add_mul, one_mul, mul_assoc]

@[simp] theorem mem_union : text ∈ language ⊔ other ↔ text ∈ language ∨ text ∈ other :=
  Iff.rfl

@[simp] theorem cons_mem_kstar :
    character :: text ∈ (one property)∗ ↔ property character = true ∧ text ∈ (one property)∗ := by
  conv_lhs => rw [← Language.one_add_self_mul_kstar_eq_kstar]
  simp

@[simp] theorem cons_mem_kstar_mul :
    character :: text ∈ (one property)∗ * language ↔
      character :: text ∈ language ∨
        property character = true ∧ text ∈ (one property)∗ * language := by
  conv_lhs => rw [kstar_mul]
  rw [Language.mem_add, cons_mem_one_mul]

end

/-! ## Kinds of tokens -/

def wordLanguage : Language Char :=
  one isLetter * (one isWordCharacter)∗

def digits : Language Char :=
  (one isDigit)∗

def integerLanguage : Language Char :=
  char '0' + (1 + char '-') * (one isNonzeroDigit * digits)

def fractionLanguage : Language Char :=
  char '.' * (one isDigit * digits)

/-- One character that is not among those that have to be escaped, or an escape. -/
def quotable (excluded : List Char) : Language Char :=
  one (fun character => !excluded.contains character) + char '\\' * one isEscapable

/-- What stands between the quotes of a character. -/
def single : Language Char :=
  quotable ['\'', '\\', '\n', '\r', '\t']

/-- What stands, any number of times, between the quotes of a string. -/
def item : Language Char :=
  quotable ['"', '\\', '\n', '\r']

/-- The operators of one character. -/
def isSign (character : Char) : Bool :=
  !(isBlank character || isLetter character || isDigit character || character == '\'' ||
    character == '"')

def Kind.language : Kind → Language Char
  | .identifier => (1 + char '@') * wordLanguage
  | .integer => integerLanguage
  | .decimal => integerLanguage * fractionLanguage
  | .character => char '\'' * (single * char '\'')
  | .string => char '"' * (item∗ * char '"')
  | .operator =>
      char '&' * char '&' + char '|' * char '|' + char '=' * char '=' + char '!' * char '=' +
        char '<' * char '=' + char '>' * char '=' + one isSign

/-! ## What is missing of a token -/

/-- The texts that complete a token in this mode to one of the kind. -/
def Mode.remainder : Mode → Kind → Language Char
  | .sigil => fun
      | .operator => 1
      | .identifier => wordLanguage
      | _ => 0
  | .minus => fun
      | .operator => 1
      | .integer => one isNonzeroDigit * digits
      | .decimal => one isNonzeroDigit * (digits * fractionLanguage)
      | _ => 0
  | .half first => fun
      | .operator => 1 + one (isPair first)
      | _ => 0
  | .word => fun
      | .identifier => (one isWordCharacter)∗
      | _ => 0
  | .zero => fun
      | .integer => 1
      | .decimal => fractionLanguage
      | _ => 0
  | .integer => fun
      | .integer => digits
      | .decimal => digits * fractionLanguage
      | _ => 0
  | .point => fun
      | .decimal => one isDigit * digits
      | _ => 0
  | .fraction => fun
      | .decimal => digits
      | _ => 0
  | .quote => fun
      | .character => single * char '\''
      | _ => 0
  | .quoteEscape => fun
      | .character => one isEscapable * char '\''
      | _ => 0
  | .quoted => fun
      | .character => char '\''
      | _ => 0
  | .text => fun
      | .string => item∗ * char '"'
      | _ => 0
  | .textEscape => fun
      | .string => one isEscapable * (item∗ * char '"')
      | _ => 0
  | .complete kind => fun other => if kind = other then 1 else 0

theorem Mode.nil_mem_remainder {mode : Mode} {kind : Kind} :
    [] ∈ mode.remainder kind ↔ mode.finish = .ok kind := by
  cases mode with
  | complete other =>
      by_cases same : other = kind
      · simp [remainder, finish, same]
      · simp [remainder, finish, same]
  | _ =>
      cases kind <;>
        simp [remainder, finish, wordLanguage, digits, fractionLanguage, single, item, quotable,
          Language.nil_mem_kstar]

/-- The mode after a character that belongs to the token. -/
def Mode.extension? (mode : Mode) (character : Char) : Option Mode :=
  match mode.next character with
  | .ok (.extend after) => some after
  | _ => none

section

variable {mode after : Mode} {character : Char} {condition : Prop} [Decidable condition]

theorem Mode.extension?_of_close {kind : Kind}
    (next : mode.next character = .ok (if condition then .extend after else .close kind)) :
    mode.extension? character = if condition then some after else none := by
  rw [extension?, next]
  by_cases met : condition
  · rw [if_pos met, if_pos met]
  · rw [if_neg met, if_neg met]

theorem Mode.extension?_of_error {cause : LexicalError.Cause}
    (next : mode.next character = if condition then .ok (.extend after) else .error cause) :
    mode.extension? character = if condition then some after else none := by
  rw [extension?, next]
  by_cases met : condition
  · rw [if_pos met, if_pos met]
  · rw [if_neg met, if_neg met]

theorem Mode.exists_ite_eq_some {holds : Mode → Prop} :
    (∃ last, (if condition then some after else none) = some last ∧ holds last) ↔
      condition ∧ holds after := by
  by_cases met : condition
  · simp [met]
  · simp [met]

end

theorem ne_point_of_isDigit {character : Char} (digit : isDigit character = true) :
    character ≠ '.' := by
  rintro rfl
  revert digit
  decide

theorem Mode.extension?_zero (character : Char) :
    Mode.zero.extension? character = if character = '.' then some .point else none := by
  by_cases digit : isDigit character = true
  · simp [extension?, next, digit, ne_point_of_isDigit digit]
  · exact extension?_of_close (if_neg digit)

theorem Mode.extension?_integer (character : Char) :
    Mode.integer.extension? character =
      if isDigit character then some .integer
      else if character = '.' then some .point else none := by
  by_cases digit : isDigit character = true
  · simp [extension?, next, digit]
  · rw [if_neg digit]
    exact extension?_of_close (congrArg _ (if_neg digit))

theorem Mode.extension?_quote (character : Char) :
    Mode.quote.extension? character =
      if character = '\\' then some .quoteEscape
      else if character ∉ ['\'', '\\', '\n', '\r', '\t'] then some .quoted
      else none := by
  by_cases escape : character = '\\'
  · subst escape
    rfl
  · by_cases closing : character = '\''
    · subst closing
      rfl
    · by_cases control : character = '\n' ∨ character = '\r' ∨ character = '\t'
      · simp [extension?, next, escape, closing, control]
      · simp [extension?, next, escape, closing, control]

theorem Mode.extension?_text (character : Char) :
    Mode.text.extension? character =
      if character = '\\' then some .textEscape
      else if character = '"' then some (.complete .string)
      else if character ∉ ['"', '\\', '\n', '\r'] then some .text
      else none := by
  by_cases escape : character = '\\'
  · subst escape
    rfl
  · by_cases closing : character = '"'
    · subst closing
      rfl
    · by_cases control : character = '\n' ∨ character = '\r'
      · simp [extension?, next, escape, closing, control]
      · simp [extension?, next, escape, closing, control]

@[simp] theorem cons_mem_quotable_mul {excluded : List Char} {language : Language Char}
    {character : Char} {text : List Char} :
    character :: text ∈ quotable excluded * language ↔
      character ∉ excluded ∧ text ∈ language ∨
        character = '\\' ∧ text ∈ one isEscapable * language := by
  rw [quotable, add_mul, mul_assoc, Language.mem_add, cons_mem_one_mul, cons_mem_one_mul]
  simp

theorem cons_mem_items_mul {language : Language Char} {character : Char} {text : List Char} :
    character :: text ∈ item∗ * language ↔
      character :: text ∈ language ∨
        character ∉ ['"', '\\', '\n', '\r'] ∧ text ∈ item∗ * language ∨
        character = '\\' ∧ text ∈ one isEscapable * (item∗ * language) := by
  conv_lhs => rw [kstar_mul, Language.mem_add, item, cons_mem_quotable_mul]
  rfl

theorem Mode.cons_mem_remainder {mode : Mode} {kind : Kind} {character : Char} {text : List Char} :
    character :: text ∈ mode.remainder kind ↔
      ∃ after, mode.extension? character = some after ∧ text ∈ after.remainder kind := by
  cases mode with
  | sigil | minus | half first | word | fraction =>
      rw [extension?_of_close rfl, exists_ite_eq_some]
      cases kind <;> simp [remainder, wordLanguage, digits]
  | point | quoteEscape | textEscape | quoted =>
      rw [extension?_of_error rfl, exists_ite_eq_some]
      cases kind <;> simp [remainder]
  | zero =>
      rw [extension?_zero, exists_ite_eq_some]
      cases kind <;> simp [remainder, fractionLanguage]
  | integer =>
      rw [extension?_integer]
      by_cases digit : isDigit character = true
      · have different := ne_point_of_isDigit digit
        cases kind <;> simp [remainder, digits, fractionLanguage, digit, different]
      · rw [if_neg digit, exists_ite_eq_some]
        cases kind <;> simp [remainder, digits, fractionLanguage, digit]
  | quote =>
      rw [extension?_quote]
      by_cases escape : character = '\\'
      · subst escape
        cases kind <;> simp [remainder, single]
      · rw [if_neg escape, exists_ite_eq_some]
        cases kind <;> simp [remainder, single, escape]
  | text =>
      rw [extension?_text]
      by_cases escape : character = '\\'
      · subst escape
        cases kind <;> simp [remainder, cons_mem_items_mul]
      · by_cases closing : character = '"'
        · subst closing
          cases kind <;> simp [remainder, cons_mem_items_mul]
        · rw [if_neg escape, if_neg closing, exists_ite_eq_some]
          cases kind <;> simp [remainder, cons_mem_items_mul, escape, closing]
  | complete other =>
      by_cases same : other = kind
      · simp [remainder, extension?, next, same]
      · simp [remainder, extension?, next, same]

def Mode.through? (mode : Mode) : List Char → Option Mode
  | [] => some mode
  | character :: rest => (mode.extension? character).bind (·.through? rest)

/-- A text completes a token exactly when all of it belongs to the token, which then can
end. -/
theorem Mode.mem_remainder_iff {mode : Mode} {kind : Kind} {text : List Char} :
    text ∈ mode.remainder kind ↔
      ∃ last, mode.through? text = some last ∧ last.finish = .ok kind := by
  induction text generalizing mode with
  | nil => simp [nil_mem_remainder, through?]
  | cons character rest induction =>
      rw [cons_mem_remainder, through?]
      cases mode.extension? character with
      | none => simp
      | some after => simpa using induction

/-! ## First characters -/

theorem isPair_iff {first second : Char} :
    isPair first second = true ↔
      first = '&' ∧ second = '&' ∨ first = '|' ∧ second = '|' ∨
        first ∈ ['=', '!', '<', '>'] ∧ second = '=' := by
  unfold isPair
  split <;> simp_all

theorem isSign_of_isPair {first second : Char} (pair : isPair first second = true) :
    isSign first = true := by
  have signs : ['&', '|', '=', '!', '<', '>'].all isSign = true := by decide
  rcases isPair_iff.mp pair with ⟨rfl, -⟩ | ⟨rfl, -⟩ | ⟨among, -⟩
  · rfl
  · rfl
  · exact List.all_eq_true.mp signs first (List.mem_of_mem_tail (List.mem_of_mem_tail among))

theorem one_isPair_eq_zero {first : Char} (other : first ∉ ['&', '|', '=', '!', '<', '>']) :
    one (isPair first) = 0 := by
  ext text
  constructor
  · rintro ⟨second, pair, -⟩
    rcases isPair_iff.mp pair with ⟨rfl, -⟩ | ⟨rfl, -⟩ | ⟨among, -⟩
    · exact absurd (by decide) other
    · exact absurd (by decide) other
    · exact absurd (List.mem_of_mem_tail (List.mem_of_mem_tail among)) other
  · exact fun impossible => absurd impossible (Language.notMem_zero text)

theorem ne_of_eq_true {property : Char → Bool} {character other : Char}
    (holds : property character = true) (fails : property other = false) : character ≠ other := by
  rintro rfl
  rw [holds] at fails
  cases fails

theorem isBlank_eq_false {property : Char → Bool} {character : Char}
    (holds : property character = true)
    (blanks : [' ', '\x08', '\n', '\r', '\t'].all (!property ·) = true) :
    isBlank character = false := by
  have different : ∀ blank ∈ [' ', '\x08', '\n', '\r', '\t'], character ≠ blank := by
    intro blank member
    have fails := List.all_eq_true.mp blanks blank member
    exact ne_of_eq_true holds (Bool.not_eq_true' _ |>.mp fails)
  simpa [isBlank, and_assoc] using different

theorem isDigit_eq_false_of_isLetter {character : Char} (letter : isLetter character = true) :
    isDigit character = false := by
  simp only [isLetter, isDigit, Bool.or_eq_true, Bool.and_eq_true, decide_eq_true_eq,
    Bool.and_eq_false_iff, decide_eq_false_iff_not, Char.le_def, UInt32.le_iff_toNat_le] at letter ⊢
  have digit : ('9' : Char).val.toNat = 57 := rfl
  have lower : ('a' : Char).val.toNat = 97 := rfl
  have upper : ('A' : Char).val.toNat = 65 := rfl
  omega

theorem isNonzeroDigit_iff {character : Char} :
    isNonzeroDigit character = true ↔ isDigit character = true ∧ character ≠ '0' := by
  simp only [isNonzeroDigit, isDigit, Bool.and_eq_true, decide_eq_true_eq, Char.le_def,
    UInt32.le_iff_toNat_le, ne_eq, Char.ext_iff, ← UInt32.toNat_inj]
  have zero : ('0' : Char).val.toNat = 48 := rfl
  have one : ('1' : Char).val.toNat = 49 := rfl
  omega

theorem cons_mem_language_identifier {character : Char} {text : List Char} :
    character :: text ∈ Kind.identifier.language ↔
      character = '@' ∧ text ∈ wordLanguage ∨
        isLetter character = true ∧ text ∈ (one isWordCharacter)∗ := by
  rw [Kind.language, add_mul, one_mul, Language.mem_add, cons_mem_one_mul]
  simp [wordLanguage, or_comm]

theorem cons_mem_integerLanguage_mul {language : Language Char} {character : Char}
    {text : List Char} :
    character :: text ∈ integerLanguage * language ↔
      character = '0' ∧ text ∈ language ∨
        character = '-' ∧ text ∈ one isNonzeroDigit * (digits * language) ∨
        isNonzeroDigit character = true ∧ text ∈ digits * language := by
  rw [integerLanguage, add_mul, add_mul, add_mul, Language.mem_add, Language.mem_add]
  simp [mul_assoc, or_comm]

theorem cons_mem_language_integer {character : Char} {text : List Char} :
    character :: text ∈ Kind.integer.language ↔
      character = '0' ∧ text = [] ∨ character = '-' ∧ text ∈ one isNonzeroDigit * digits ∨
        isNonzeroDigit character = true ∧ text ∈ digits := by
  rw [Kind.language, ← mul_one integerLanguage, cons_mem_integerLanguage_mul]
  simp

/-- Every pair is listed, so the first character decides which second one there may be. -/
theorem cons_mem_language_operator {character : Char} {text : List Char} :
    character :: text ∈ Kind.operator.language ↔
      isSign character = true ∧ (text = [] ∨ text ∈ one (isPair character)) := by
  cases text with
  | nil => simp [Kind.language]
  | cons second rest =>
      have pairs : character :: second :: rest ∈ Kind.operator.language ↔
          isPair character second = true ∧ rest = [] := by
        simp [Kind.language, isPair_iff]
        grind
      rw [pairs, cons_mem_one]
      constructor
      · exact fun ⟨pair, nothing⟩ => ⟨isSign_of_isPair pair, .inr ⟨pair, nothing⟩⟩
      · rintro ⟨-, impossible | pair⟩
        · cases impossible
        · exact pair

theorem Kind.cons_mem_language_iff {kind : Kind} {character : Char} {text : List Char} :
    character :: text ∈ kind.language ↔ match kind with
      | .identifier => character = '@' ∧ text ∈ wordLanguage ∨
          isLetter character = true ∧ text ∈ (one isWordCharacter)∗
      | .integer => character = '0' ∧ text = [] ∨
          character = '-' ∧ text ∈ one isNonzeroDigit * digits ∨
          isNonzeroDigit character = true ∧ text ∈ digits
      | .decimal => character = '0' ∧ text ∈ fractionLanguage ∨
          character = '-' ∧ text ∈ one isNonzeroDigit * (digits * fractionLanguage) ∨
          isNonzeroDigit character = true ∧ text ∈ digits * fractionLanguage
      | .character => character = '\'' ∧ text ∈ single * char '\''
      | .string => character = '"' ∧ text ∈ item∗ * char '"'
      | .operator => isSign character = true ∧ (text = [] ∨ text ∈ one (isPair character)) := by
  cases kind with
  | identifier => exact cons_mem_language_identifier
  | integer => exact cons_mem_language_integer
  | decimal => exact cons_mem_integerLanguage_mul
  | character | string => simp [Kind.language]
  | operator => exact cons_mem_language_operator

theorem Kind.cons_mem_language {kind : Kind} {character : Char} {text : List Char} :
    character :: text ∈ kind.language ↔
      isBlank character = false ∧ text ∈ (Mode.start character).remainder kind := by
  rw [cons_mem_language_iff]
  by_cases special : character ∈ ['@', '-', '0', '\'', '"']
  · -- the class of a given character is computed
    simp only [List.mem_cons, List.not_mem_nil, or_false] at special
    rcases special with rfl | rfl | rfl | rfl | rfl <;> cases kind <;>
      simp [Mode.start, Mode.remainder, isBlank, isLetter, isNonzeroDigit, isDigit, isSign,
        one_isPair_eq_zero]
  · simp only [List.mem_cons, List.not_mem_nil, or_false, not_or] at special
    by_cases letter : isLetter character = true
    · have digit := isDigit_eq_false_of_isLetter letter
      have blank := isBlank_eq_false letter (by decide)
      cases kind <;>
        simp [Mode.start, Mode.remainder, special, letter, digit, blank, isNonzeroDigit_iff, isSign]
    · by_cases digit : isDigit character = true
      · have blank := isBlank_eq_false digit (by decide)
        cases kind <;>
          simp [Mode.start, Mode.remainder, special, letter, digit, blank, isNonzeroDigit_iff,
            isSign]
      · cases kind <;>
          simp [Mode.start, Mode.remainder, special, letter, digit, isNonzeroDigit_iff, isSign]

theorem Kind.nil_notMem_language {kind : Kind} : [] ∉ kind.language := by
  cases kind <;>
    simp [Kind.language, integerLanguage, wordLanguage, single, quotable, fractionLanguage]

end Plc.Token
