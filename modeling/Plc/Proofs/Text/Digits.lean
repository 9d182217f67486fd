import Plc.Proofs.Token.Spelled

/-! Numbers by their digits. Different numbers have different digits, and digits are read as
the number that they were written for. -/

namespace Plc

/-! ## Digits in any base -/

namespace Text

theorem exists_digitChar_of_mem_toDigits {base : Nat} (several : 1 < base) {number : Nat}
    {character : Char} (member : character ∈ Nat.toDigits base number) :
    ∃ digit, character = Nat.digitChar digit := by
  induction number using Nat.strongRecOn with
  | _ number induction =>
      rw [Nat.toDigits_eq_if several] at member
      split at member
      · exact ⟨number, by simpa using member⟩
      · rename_i large
        rcases List.mem_append.mp member with higher | last
        · exact induction _ (Nat.div_lt_self (by omega) several) higher
        · exact ⟨_, by simpa using last⟩

theorem digitChar_inj : ∀ first < 16, ∀ second < 16,
    Nat.digitChar first = Nat.digitChar second → first = second := by
  decide

theorem digitChar_mod_inj {base first second : Nat} (several : 1 < base) (known : base ≤ 16)
    (same : Nat.digitChar (first % base) = Nat.digitChar (second % base)) :
    first % base = second % base := by
  have small number : number % base < 16 :=
    Nat.lt_of_lt_of_le (Nat.mod_lt number (by omega)) known
  exact digitChar_inj _ (small first) _ (small second) same

/-- The last digit is what remains of a number, and the others are those of the quotient. -/
theorem toDigits_injective {base : Nat} (several : 1 < base) (known : base ≤ 16) :
    Function.Injective (Nat.toDigits base) := by
  intro first second same
  induction first using Nat.strongRecOn generalizing second with
  | _ first induction =>
      have positive number : 0 < (Nat.toDigits base number).length := Nat.length_toDigits_pos
      rw [Nat.toDigits_eq_if (n := first) several, Nat.toDigits_eq_if (n := second) several] at same
      split at same <;> split at same
      · exact digitChar_inj first (by omega) second (by omega) (List.singleton_inj.mp same)
      · have lengths := congrArg List.length same
        have := positive (second / base)
        simp only [List.length_append, List.length_singleton] at lengths
        omega
      · have lengths := congrArg List.length same
        have := positive (first / base)
        simp only [List.length_append, List.length_singleton] at lengths
        omega
      · rcases List.append_inj' same rfl with ⟨higher, last⟩
        have quotient := induction _ (Nat.div_lt_self (by omega) several) higher
        have remainder := digitChar_mod_inj several known (List.singleton_inj.mp last)
        rw [← Nat.div_add_mod first base, ← Nat.div_add_mod second base, quotient, remainder]

end Text

/-! ## Digits in base ten -/

namespace Literal

theorem isNatural_toDigits (number : Nat) : IsNatural (Nat.toDigits 10 number) where
  nonempty := Nat.toDigits_ne_nil
  digits character member := by
    have digit := Nat.isDigit_of_mem_toDigits (by decide) (by decide) member
    simpa [Char.isDigit, Token.isDigit, Char.le_def] using digit

theorem naturalValue_toDigits (number : Nat) : naturalValue (Nat.toDigits 10 number) = number :=
  Nat.ofDigitChars_toDigits (by decide) (by decide)

theorem IsNatural.replicate_append {digits : List Char} (natural : IsNatural digits)
    (count : Nat) : IsNatural (List.replicate count '0' ++ digits) where
  nonempty := by simp [natural.nonempty]
  digits character member := by
    rcases List.mem_append.mp member with zero | member
    · rw [List.eq_of_mem_replicate zero]
      rfl
    · exact natural.digits character member

theorem naturalValue_replicate_append (count : Nat) (digits : List Char) :
    naturalValue (List.replicate count '0' ++ digits) = naturalValue digits := by
  induction count with
  | zero => rfl
  | succ count induction => exact induction

/-! ## Integers -/

def sign (value : Int) : List Char :=
  if value < 0 then ['-'] else []

variable {value : Int} {digits : List Char}

theorem IsNatural.isInteger_sign (natural : IsNatural digits) (value : Int) :
    IsInteger (sign value ++ digits) := by
  unfold sign
  split
  · exact .inr ⟨digits, rfl, natural⟩
  · exact .inl natural

theorem integer?_sign (natural : IsNatural digits) (worth : naturalValue digits = value.natAbs) :
    integer? (sign value ++ digits) = some value := by
  unfold sign
  split
  · rename_i negative
    have same : -(value.natAbs : Int) = value := by omega
    rw [List.singleton_append, integer?_minus natural, worth, same]
  · rename_i nonnegative
    have same : (value.natAbs : Int) = value := by omega
    rw [List.nil_append, integer?_eq natural, worth, same]

theorem toList_toString (value : Int) :
    (toString value).toList = sign value ++ Nat.toDigits 10 value.natAbs := by
  rw [Int.toString_eq_repr, Int.repr_eq_if, sign]
  have written (number : Nat) : number.repr.toList = Nat.toDigits 10 number := by
    rw [Nat.repr_eq_ofList_toDigits, String.toList_ofList]
  split
  · rename_i nonnegative
    rw [if_neg (by omega), List.nil_append, written]
    congr 1
    omega
  · rename_i negative
    rw [if_pos (by omega), String.toList_append, written]
    congr 2
    omega

theorem isInteger_toString (value : Int) : IsInteger (toString value).toList := by
  rw [toList_toString]
  exact (isNatural_toDigits _).isInteger_sign value

theorem integer?_toString (value : Int) : integer? (toString value).toList = some value := by
  rw [toList_toString]
  exact integer?_sign (isNatural_toDigits _) (naturalValue_toDigits _)

theorem toString_injective : Function.Injective fun value : Int => toString value := by
  intro first second same
  apply Option.some.inj
  rw [← integer?_toString, congrArg String.toList same, integer?_toString]

end Literal

end Plc
