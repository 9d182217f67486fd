import Mathlib.Data.List.TakeWhile
import Plc.Decimal.Display
import Plc.Proofs.Text.Digits

/-! The texts of decimals. A decimal can be read from its text with the scale that it had, unless
it is zero or its scale is not positive. -/

namespace Plc

open Literal

/-! ## Numerals -/

/-- What a number may be written with. -/
structure Literal.IsNumeral (text : List Char) : Prop where
  first : ∃ head ∈ text.head?, head = '-' ∨ Token.isDigit head = true
  characters : ∀ character ∈ text,
    Token.isDigit character = true ∨ character ∈ ['-', '+', '.', 'e', 'E']

theorem Literal.IsNatural.isNumeral {text : List Char} (natural : IsNatural text) :
    IsNumeral text where
  first := by
    cases text with
    | nil => exact absurd rfl natural.nonempty
    | cons head tail => exact ⟨head, rfl, .inr (natural.digits head List.mem_cons_self)⟩
  characters character member := .inl (natural.digits character member)

theorem Literal.IsInteger.isNumeral {text : List Char} (integer : IsInteger text) :
    IsNumeral text := by
  rcases integer with natural | ⟨digits, rfl, natural⟩
  · exact natural.isNumeral
  · refine ⟨⟨'-', rfl, .inl rfl⟩, fun character member => ?_⟩
    rcases List.mem_cons.mp member with rfl | member
    · exact .inr (by decide)
    · exact .inl (natural.digits character member)

theorem Literal.IsNumeral.append {text more : List Char} (numeral : IsNumeral text)
    (others : ∀ character ∈ more,
      Token.isDigit character = true ∨ character ∈ ['-', '+', '.', 'e', 'E']) :
    IsNumeral (text ++ more) where
  first := by
    rcases numeral.first with ⟨head, first, starts⟩
    exact ⟨head, by rw [List.head?_append, first]; rfl, starts⟩
  characters character member := by
    rcases List.mem_append.mp member with member | member
    · exact numeral.characters character member
    · exact others character member

namespace Decimal

/-! ## Spellings of decimals -/

/-- The texts without an exponent, for a decimal with as many fraction digits as its scale. -/
inductive Fixed : Decimal → List Char → Prop where
  | whole {digits : Int} {text : List Char} (integer : IsInteger text)
      (worth : integer? text = some digits) : Fixed ⟨digits, 0⟩ text
  | point {digits : Int} {whole fraction : List Char} (integer : IsInteger whole)
      (natural : ∀ character ∈ fraction, Token.isDigit character = true)
      (worth : integer? (whole ++ fraction) = some digits) :
      Fixed ⟨digits, fraction.length⟩ (whole ++ '.' :: fraction)

/-- The texts of a decimal of positive scale. -/
inductive Written : Decimal → List Char → Prop where
  | plain {number : Decimal} {text : List Char} (fixed : Fixed number text)
      (pointed : '.' ∈ text) : Written number text
  | scaled {digits scale : Int} {text : List Char} (exponent : Int)
      (fixed : Fixed ⟨digits, scale + exponent⟩ text) :
      Written ⟨digits, scale⟩ (text ++ 'E' :: (toString exponent).toList)

section

variable {number : Decimal} {text : List Char}

theorem Fixed.decimal? (fixed : Fixed number text) : Literal.decimal? text = some number := by
  cases fixed with
  | whole integer worth =>
      have whole := List.takeWhile_eq_self_iff.mpr integer.ne_point
      have nothing : text.dropWhile (· != '.') = [] := List.dropWhile_eq_nil_iff.mpr integer.ne_point
      rw [Literal.decimal?, whole, nothing, List.drop_nil, List.append_nil, worth]
      rfl
  | point integer _ worth =>
      rw [decimal?_append_point integer, worth]
      rfl

theorem Fixed.isNumeral (fixed : Fixed number text) : IsNumeral text := by
  cases fixed with
  | whole integer => exact integer.isNumeral
  | point integer natural =>
      refine integer.isNumeral.append fun character member => ?_
      rcases List.mem_cons.mp member with rfl | member
      · exact .inr (by decide)
      · exact .inl (natural character member)

theorem Fixed.ne_exponent (fixed : Fixed number text) :
    ∀ character ∈ text, (character != 'E') = true := by
  intro character member
  apply bne_iff_ne.mpr
  rintro rfl
  cases fixed with
  | whole integer => exact integer.notMem rfl (by decide) member
  | point integer natural =>
      rcases List.mem_append.mp member with member | member
      · exact integer.notMem rfl (by decide) member
      · rcases List.mem_cons.mp member with impossible | member
        · exact absurd impossible (by decide)
        · exact absurd (natural 'E' member) (by decide)

/-- The decimal of a text with perhaps an exponent. -/
def read? (text : List Char) : Option Decimal :=
  (Literal.decimal? (text.takeWhile (· != 'E'))).bind fun fixed =>
    match text.dropWhile (· != 'E') with
    | [] => some fixed
    | _ :: exponent =>
        (integer? exponent).map fun exponent => ⟨fixed.digits, fixed.scale - exponent⟩

example : read? ['1', '.', '2', 'E', '-', '8'] = some ⟨12, 9⟩ := by decide

theorem Written.read? (written : Written number text) : read? text = some number := by
  cases written with
  | plain fixed =>
      have whole := List.takeWhile_eq_self_iff.mpr fixed.ne_exponent
      have nothing : text.dropWhile (· != 'E') = [] :=
        List.dropWhile_eq_nil_iff.mpr fixed.ne_exponent
      rw [Decimal.read?, whole, nothing, fixed.decimal?]
      rfl
  | scaled exponent fixed =>
      rw [Decimal.read?, List.takeWhile_append_of_pos fixed.ne_exponent,
        List.dropWhile_append_of_pos fixed.ne_exponent, List.takeWhile_cons_of_neg (by decide),
        List.append_nil, fixed.decimal?, List.dropWhile_cons_of_neg (by decide)]
      simp only [Option.bind_some, integer?_toString, Option.map_some, Int.add_sub_cancel]

theorem Written.isNumeral (written : Written number text) : IsNumeral text := by
  cases written with
  | plain fixed => exact fixed.isNumeral
  | scaled exponent fixed =>
      refine fixed.isNumeral.append fun character member => ?_
      rcases List.mem_cons.mp member with rfl | member
      · exact .inr (by decide)
      · exact (isInteger_toString exponent).isNumeral.characters character member

theorem Written.marked (written : Written number text) : '.' ∈ text ∨ 'E' ∈ text := by
  cases written with
  | plain _ pointed => exact .inl pointed
  | scaled => exact .inr (List.mem_append_right _ List.mem_cons_self)

end

/-! ## The text of a decimal -/

theorem toList_display {number : Decimal} (present : number.digits ≠ 0) :
    number.display.toList =
      sign number.digits ++ layout (Nat.toDigits 10 number.digits.natAbs) number.scale := by
  rw [display, if_neg present, String.toList_ofList, sign]
  split <;> rfl

section

variable {value scale : Int} {digits : List Char}

theorem written_scientific (natural : IsNatural digits)
    (worth : naturalValue digits = value.natAbs) :
    Written ⟨value, scale⟩ (sign value ++ (digits.take 1 ++
      (if digits.length ≤ 1 then [] else '.' :: digits.drop 1) ++
        'E' :: (toString (digits.length - scale - 1)).toList)) := by
  have read := integer?_sign natural worth
  have fixed : Fixed ⟨value, scale + (digits.length - scale - 1)⟩ (sign value ++ (digits.take 1 ++
      if digits.length ≤ 1 then [] else '.' :: digits.drop 1)) := by
    have places : scale + ((digits.length : Int) - scale - 1) = (digits.drop 1).length := by
      have := List.length_pos_iff.mpr natural.nonempty
      rw [List.length_drop]
      omega
    rw [places]
    split
    · rename_i short
      rw [List.take_of_length_le short, List.drop_eq_nil_of_le short, List.append_nil]
      exact .whole (natural.isInteger_sign value) read
    · have first : IsNatural (digits.take 1) :=
        ⟨by simp [natural.nonempty], fun character member =>
          natural.digits character (List.mem_of_mem_take member)⟩
      rw [← List.append_assoc]
      refine .point (first.isInteger_sign value) (fun character member =>
        natural.digits character (List.mem_of_mem_drop member)) ?_
      rw [List.append_assoc, List.take_append_drop, read]
  simpa only [List.append_assoc] using Written.scaled _ fixed

theorem written_point (natural : IsNatural digits)
    (worth : naturalValue digits = value.natAbs) {places : Nat} (long : places < digits.length) :
    Written ⟨value, places⟩ (sign value ++ (digits.take (digits.length - places) ++
      '.' :: digits.drop (digits.length - places))) := by
  have whole : IsNatural (digits.take (digits.length - places)) := by
    refine ⟨?_, fun character member => natural.digits character (List.mem_of_mem_take member)⟩
    rw [ne_eq, List.take_eq_nil_iff, not_or]
    exact ⟨by omega, natural.nonempty⟩
  have fraction : (digits.drop (digits.length - places)).length = places := by
    rw [List.length_drop]
    omega
  have read := integer?_sign natural worth
  rw [← List.take_append_drop (digits.length - places) digits, ← List.append_assoc] at read
  have fixed := Fixed.point (whole.isInteger_sign value) (fun character member =>
    natural.digits character (List.mem_of_mem_drop member)) read
  rw [fraction, List.append_assoc] at fixed
  exact .plain fixed (by simp)

theorem written_layout (natural : IsNatural digits)
    (worth : naturalValue digits = value.natAbs) (positive : 0 < scale) :
    Written ⟨value, scale⟩ (sign value ++ layout digits scale) := by
  rw [layout, if_neg (by omega)]
  split
  · exact written_scientific natural worth
  · -- zeros in front make room for the point
    have padded := natural.replicate_append (scale.toNat + 1 - digits.length)
    have long : scale.toNat <
        (List.replicate (scale.toNat + 1 - digits.length) '0' ++ digits).length := by
      rw [List.length_append, List.length_replicate]
      omega
    have written := written_point padded
      ((naturalValue_replicate_append _ digits).trans worth) long
    rwa [Int.toNat_of_nonneg (by omega)] at written

end

theorem written_display {number : Decimal} (present : number.digits ≠ 0)
    (positive : 0 < number.scale) : Written number number.display.toList := by
  rw [toList_display present]
  exact written_layout (isNatural_toDigits _) (naturalValue_toDigits _) positive

/-- No two decimals have one text, unless they are zero or at a scale that is not positive. -/
theorem display_inj {first second : Decimal} (present : first.digits ≠ 0)
    (positive : 0 < first.scale) (otherPresent : second.digits ≠ 0)
    (otherPositive : 0 < second.scale) (same : first.display = second.display) :
    first = second := by
  apply Option.some.inj
  rw [← (written_display present positive).read?, same,
    (written_display otherPresent otherPositive).read?]

end Decimal

end Plc
