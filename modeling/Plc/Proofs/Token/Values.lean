import Mathlib.Data.Nat.Digits.Defs
import Plc.Proofs.Token.Longest

/-! What literals are worth: numbers by their digits in base ten, quoted text by the
characters that were written, each as it is or as an escape. -/

namespace Plc

namespace Literal

/-! ## Quoted text -/

/-- The characters that have an escape, with what stands for them after the backslash. -/
def escapes : List (Char × Char) :=
  [('\x08', 'b'), ('\n', 'n'), ('\r', 'r'), ('\t', 't'), ('\'', '\''), ('"', '"'), ('\\', '\\')]

/-- The ways to write a character between quotes, where some have to be escaped. -/
inductive Writes (excluded : List Char) (character : Char) : List Char → Prop where
  | plain (allowed : character ∉ excluded) : Writes excluded character [character]
  | escape {letter : Char} (known : (character, letter) ∈ escapes) :
      Writes excluded character ['\\', letter]

theorem escaped_of_mem {character letter : Char} (known : (character, letter) ∈ escapes) :
    escaped letter = character := by
  simp only [escapes, List.mem_cons, Prod.mk.injEq, List.not_mem_nil, or_false] at known
  rcases known with ⟨rfl, rfl⟩ | ⟨rfl, rfl⟩ | ⟨rfl, rfl⟩ | ⟨rfl, rfl⟩ | ⟨rfl, rfl⟩ |
    ⟨rfl, rfl⟩ | ⟨rfl, rfl⟩ <;> rfl

theorem isEscapable_of_mem {character letter : Char} (known : (character, letter) ∈ escapes) :
    Token.isEscapable letter = true := by
  simp only [escapes, List.mem_cons, Prod.mk.injEq, List.not_mem_nil, or_false] at known
  rcases known with ⟨_, rfl⟩ | ⟨_, rfl⟩ | ⟨_, rfl⟩ | ⟨_, rfl⟩ | ⟨_, rfl⟩ | ⟨_, rfl⟩ |
    ⟨_, rfl⟩ <;> rfl

theorem unescape_cons {character : Char} (plain : character ≠ '\\') (rest : List Char) :
    unescape (character :: rest) = character :: unescape rest := by
  rw [unescape] <;> simp_all

section

variable {excluded : List Char} {character : Char} {written : List Char}

theorem Writes.unescape_append (writes : Writes excluded character written)
    (backslash : '\\' ∈ excluded) (rest : List Char) :
    unescape (written ++ rest) = character :: unescape rest := by
  cases writes with
  | plain allowed =>
      apply unescape_cons
      rintro rfl
      exact allowed backslash
  | escape known =>
      rw [List.cons_append, List.cons_append, List.nil_append, unescape, escaped_of_mem known]

theorem unescape_flatten {text : List Char} {pieces : List (List Char)}
    (writes : List.Forall₂ (Writes excluded) text pieces) (backslash : '\\' ∈ excluded) :
    unescape pieces.flatten = text := by
  induction writes with
  | nil => rfl
  | cons head _ induction => rw [List.flatten_cons, head.unescape_append backslash, induction]

theorem unquote_quoted (quote : Char) (inner : List Char) :
    unquote (quote :: (inner ++ [quote])) = inner := by
  simp [unquote]

/-! ## Numbers -/

def digitValue (digit : Char) : Nat :=
  digit.toNat - '0'.toNat

def numeral (digits : List Char) : Nat :=
  Nat.ofDigits 10 (digits.reverse.map digitValue)

/-- Digits, perhaps after a minus, and the integer they are in base ten. -/
inductive Denotes : List Char → Int → Prop where
  | natural {digits : List Char} (natural : IsNatural digits) :
      Denotes digits (numeral digits)
  | negative {digits : List Char} (natural : IsNatural digits) :
      Denotes ('-' :: digits) (-numeral digits)

theorem naturalValue_eq_numeral (digits : List Char) : naturalValue digits = numeral digits := by
  induction digits using List.reverseRecOn with
  | nil => rfl
  | append_singleton front last induction =>
      rw [naturalValue, List.foldl_append, List.foldl_cons, List.foldl_nil, ← naturalValue,
        induction, numeral, numeral, List.reverse_append, List.reverse_singleton,
        List.singleton_append, List.map_cons, Nat.ofDigits_cons, digitValue, Nat.add_comm]

theorem integer?_of_denotes {text : List Char} {value : Int} (denotes : Denotes text value) :
    integer? text = some value := by
  cases denotes with
  | natural natural => rw [integer?_eq natural, naturalValue_eq_numeral]
  | negative natural => rw [integer?_minus natural, naturalValue_eq_numeral]

theorem IsInteger.denotes {text : List Char} (integer : IsInteger text) :
    ∃ value, Denotes text value := by
  rcases integer with natural | ⟨digits, rfl, natural⟩
  · exact ⟨_, .natural natural⟩
  · exact ⟨_, .negative natural⟩

end

end Literal

/-! ## Texts of tokens -/

namespace Token

open Literal

open scoped Computability

theorem mem_quotable_of_writes {excluded : List Char} {character : Char} {written : List Char}
    (writes : Writes excluded character written) : written ∈ quotable excluded := by
  cases writes with
  | plain allowed => exact .inl ⟨character, by simpa using allowed, rfl⟩
  | escape known =>
      refine (Language.mem_add _ _ _).mpr (.inr ?_)
      rw [cons_mem_one_mul, cons_mem_one]
      exact ⟨rfl, isEscapable_of_mem known, rfl⟩

theorem quoted_mem_string {text : List Char} {pieces : List (List Char)}
    (writes : List.Forall₂ (Writes ['"', '\\', '\n', '\r']) text pieces) :
    '"' :: (pieces.flatten ++ ['"']) ∈ Kind.string.language := by
  have items : pieces.flatten ∈ item∗ := by
    refine Language.mem_kstar.mpr ⟨pieces, rfl, fun piece member => ?_⟩
    induction writes with
    | nil => cases member
    | cons head _ induction =>
        rcases List.mem_cons.mp member with rfl | member
        · exact mem_quotable_of_writes head
        · exact induction member
  rw [Kind.language, cons_mem_one_mul]
  exact ⟨rfl, Language.append_mem_mul items (cons_mem_one.mpr ⟨rfl, rfl⟩)⟩

theorem quoted_mem_character {character : Char} {written : List Char}
    (writes : Writes ['\'', '\\', '\n', '\r', '\t'] character written) :
    '\'' :: (written ++ ['\'']) ∈ Kind.character.language := by
  rw [Kind.language, cons_mem_one_mul]
  exact ⟨rfl, Language.append_mem_mul (mem_quotable_of_writes writes)
    (cons_mem_one.mpr ⟨rfl, rfl⟩)⟩

theorem forall_of_mem_kstar {property : Char → Bool} {text : List Char}
    (member : text ∈ (one property)∗) : ∀ character ∈ text, property character = true := by
  induction text with
  | nil => exact fun _ impossible => absurd impossible List.not_mem_nil
  | cons head tail induction =>
      rcases cons_mem_kstar.mp member with ⟨holds, rest⟩
      exact List.forall_mem_cons.mpr ⟨holds, induction rest⟩

theorem isDigit_of_mem_digits {text : List Char} (member : text ∈ digits) :
    ∀ character ∈ text, isDigit character = true :=
  forall_of_mem_kstar member

theorem isInteger_of_mem_language {text : List Char} (member : text ∈ integerLanguage) :
    IsInteger text := by
  have nonzero : ∀ {text}, text ∈ one isNonzeroDigit * digits → IsNatural text := by
    rintro _ ⟨_, ⟨first, digit, rfl⟩, rest, more, rfl⟩
    refine ⟨by simp, List.forall_mem_cons.mpr ⟨isDigit_of_isNonzeroDigit digit, ?_⟩⟩
    exact isDigit_of_mem_digits more
  rcases member with zero | ⟨sign, signed, rest, number, rfl⟩
  · rcases zero with ⟨character, same, rfl⟩
    exact isInteger_of_isDigit (by rw [beq_iff_eq.mp same]; rfl)
  · rcases signed with empty | ⟨minus, same, rfl⟩
    · rw [show sign = [] from empty]
      exact .inl (nonzero number)
    · rw [beq_iff_eq.mp same]
      exact .inr ⟨rest, rfl, nonzero number⟩

theorem exists_of_mem_decimal {text : List Char} (member : text ∈ Kind.decimal.language) :
    ∃ whole fraction, text = whole ++ '.' :: fraction ∧ IsInteger whole ∧ IsNatural fraction := by
  rcases member with ⟨whole, integer, _, ⟨_, ⟨point, same, rfl⟩, fraction, digits, rfl⟩, rfl⟩
  rcases digits with ⟨_, ⟨first, digit, rfl⟩, rest, more, rfl⟩
  refine ⟨whole, first :: rest, by rw [beq_iff_eq.mp same]; rfl,
    isInteger_of_mem_language integer, by simp, List.forall_mem_cons.mpr ⟨digit, ?_⟩⟩
  exact isDigit_of_mem_digits more

theorem mem_language_of_scan {text : String} {tokens : List Token}
    (scanned : scan text = .ok tokens) {token : Token} (member : token ∈ tokens) :
    token.literal.toList ∈ token.kind.language := by
  rcases (cuts_of_scan scanned).standsAt Text.byteLength_nil token member with ⟨_, _, _, stands⟩
  exact stands.member

end Token

end Plc
