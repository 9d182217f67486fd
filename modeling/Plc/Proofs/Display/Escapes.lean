import Plc.Proofs.Text.Digits
import Plc.Text.Escape

/-! Text between quotes. It ends at the first quote that is not escaped, and its spelling tells
which characters were escaped. -/

namespace Plc.Text

/-! ## Where quoted text ends -/

/-- Text that may stand between quotes: every quote in it is behind a backslash. -/
inductive Escaped (quote : Char) : List Char → Prop where
  | nil : Escaped quote []
  | plain {character : Char} {rest : List Char} (other : character ≠ quote)
      (unescaped : character ≠ '\\') (tail : Escaped quote rest) : Escaped quote (character :: rest)
  | escape (character : Char) {rest : List Char} (tail : Escaped quote rest) :
      Escaped quote ('\\' :: character :: rest)

namespace Escaped

variable {quote : Char} {text other rest others : List Char}

theorem append (first : Escaped quote text) (second : Escaped quote other) :
    Escaped quote (text ++ other) := by
  induction first with
  | nil => exact second
  | plain different unescaped _ induction => exact .plain different unescaped induction
  | escape character _ induction => exact .escape character induction

theorem of_forall (plain : ∀ character ∈ text, character ≠ quote ∧ character ≠ '\\') :
    Escaped quote text := by
  induction text with
  | nil => exact .nil
  | cons head tail induction =>
      have first := plain head List.mem_cons_self
      exact .plain first.1 first.2 (induction fun character member =>
        plain character (List.mem_cons_of_mem head member))

/-- The closing quote is the first one that is not escaped. -/
theorem append_inj (first : Escaped quote text) (second : Escaped quote other)
    (distinct : quote ≠ '\\') (same : text ++ quote :: rest = other ++ quote :: others) :
    text = other ∧ rest = others := by
  induction first generalizing other with
  | nil =>
      cases second with
      | nil => exact ⟨rfl, (List.cons.inj same).2⟩
      | plain different => exact absurd (List.cons.inj same).1.symm different
      | escape => exact absurd (List.cons.inj same).1 distinct
  | plain different unescaped _ induction =>
      cases second with
      | nil => exact absurd (List.cons.inj same).1 different
      | plain _ _ tail =>
          rcases List.cons.inj same with ⟨rfl, tails⟩
          rcases induction tail tails with ⟨rfl, behind⟩
          exact ⟨rfl, behind⟩
      | escape => exact absurd (List.cons.inj same).1 unescaped
  | escape character _ induction =>
      cases second with
      | nil => exact absurd (List.cons.inj same).1.symm distinct
      | plain _ unescaped => exact absurd (List.cons.inj same).1.symm unescaped
      | escape _ tail =>
          rcases List.cons.inj (List.cons.inj same).2 with ⟨rfl, tails⟩
          rcases induction tail tails with ⟨rfl, behind⟩
          exact ⟨rfl, behind⟩

end Escaped

/-! ## Spellings of characters -/

/-- The characters that are written as a backslash and a letter. -/
def letters : List (Char × Char) :=
  [('\x00', '0'), ('\t', 't'), ('\r', 'r'), ('\n', 'n'), ('\'', '\''), ('"', '"'), ('\\', '\\')]

/-- The ways to spell a character between quotes. -/
inductive Written (character : Char) : List Char → Prop where
  | plain (unescaped : character ∉ letters.map Prod.fst) : Written character [character]
  | letter {letter : Char} (known : (character, letter) ∈ letters) :
      Written character ['\\', letter]
  | codePoint :
      Written character
        ('\\' :: 'u' :: '\x7b' :: (Nat.toDigits 16 character.toNat ++ ['\x7d']))

theorem letter_inj : ∀ first ∈ letters, ∀ second ∈ letters,
    first.2 = second.2 → first.1 = second.1 := by
  decide

theorem ne_u_of_mem_letters : ∀ known ∈ letters, known.2 ≠ 'u' := by
  decide

theorem escaped_toDigits {quote : Char} (strange : ∀ digit, Nat.digitChar digit ≠ quote)
    (number : Nat) : Escaped quote (Nat.toDigits 16 number) := by
  refine .of_forall fun character member => ?_
  rcases exists_digitChar_of_mem_toDigits (by decide) member with ⟨digit, rfl⟩
  exact ⟨strange digit, Nat.digitChar_ne '\\' rfl⟩

namespace Written

variable {character other quote : Char} {spelling text rest others : List Char}

theorem escaped (written : Written character spelling) (known : quote ∈ letters.map Prod.fst)
    (strange : ∀ digit, Nat.digitChar digit ≠ quote)
    (apart : quote ≠ '\x7b' ∧ quote ≠ '\x7d') : Escaped quote spelling := by
  cases written with
  | plain unescaped =>
      refine .plain ?_ ?_ .nil
      · rintro rfl
        exact unescaped known
      · rintro rfl
        exact unescaped (by decide)
  | letter => exact .escape _ .nil
  | codePoint =>
      have closing : Escaped quote ['\x7d'] := .plain apart.2.symm (by decide) .nil
      exact .escape 'u' (.plain apart.1.symm (by decide)
        ((escaped_toDigits strange _).append closing))

theorem ne_nil (written : Written character spelling) : spelling ≠ [] := by
  cases written <;> exact List.cons_ne_nil _ _

/-- No spelling begins another one, and each is that of one character only. -/
theorem append_inj (first : Written character spelling) (second : Written other text)
    (same : spelling ++ rest = text ++ others) : character = other ∧ rest = others := by
  have backslash : ∀ {character : Char}, character ∉ letters.map Prod.fst → character ≠ '\\' := by
    rintro _ unescaped rfl
    exact unescaped (by decide)
  cases first with
  | plain unescaped =>
      cases second with
      | plain => exact List.cons.inj same
      | letter | codePoint => exact absurd (List.cons.inj same).1 (backslash unescaped)
  | letter known =>
      cases second with
      | plain unescaped => exact absurd (List.cons.inj same).1.symm (backslash unescaped)
      | letter other =>
          rcases List.cons.inj (List.cons.inj same).2 with ⟨rfl, behind⟩
          exact ⟨letter_inj _ known _ other rfl, behind⟩
      | codePoint =>
          exact absurd (List.cons.inj (List.cons.inj same).2).1 (ne_u_of_mem_letters _ known)
  | codePoint =>
      cases second with
      | plain unescaped => exact absurd (List.cons.inj same).1.symm (backslash unescaped)
      | letter known =>
          exact absurd (List.cons.inj (List.cons.inj same).2).1.symm (ne_u_of_mem_letters _ known)
      | codePoint =>
          have digits := escaped_toDigits fun _ => Nat.digitChar_ne '\x7d' rfl
          simp only [List.cons_append, List.append_assoc, List.cons.injEq, true_and,
            List.nil_append] at same
          rcases (digits _).append_inj (digits _) (by decide) same with ⟨number, behind⟩
          exact ⟨Char.toNat_inj.mp (toDigits_injective (by decide) (by decide) number), behind⟩

end Written

/-- Every character of a text is spelled, one after the other. -/
inductive WrittenAll : List Char → List Char → Prop where
  | nil : WrittenAll [] []
  | cons {head : Char} {tail spelling rest : List Char} (first : Written head spelling)
      (others : WrittenAll tail rest) : WrittenAll (head :: tail) (spelling ++ rest)

namespace WrittenAll

variable {text other spelling : List Char}

theorem escaped {quote : Char} (written : WrittenAll text spelling)
    (known : quote ∈ letters.map Prod.fst) (strange : ∀ digit, Nat.digitChar digit ≠ quote)
    (apart : quote ≠ '\x7b' ∧ quote ≠ '\x7d') : Escaped quote spelling := by
  induction written with
  | nil => exact .nil
  | cons first _ induction => exact (first.escaped known strange apart).append induction

theorem eq_nil (written : WrittenAll text []) : text = [] := by
  generalize same : ([] : List Char) = spelling at written
  cases written with
  | nil => rfl
  | cons first _ => exact absurd (List.append_eq_nil_iff.mp same.symm).1 first.ne_nil

theorem unique (written : WrittenAll text spelling) (otherWritten : WrittenAll other spelling) :
    text = other := by
  induction written generalizing other with
  | nil => exact otherWritten.eq_nil.symm
  | @cons head tail spelled rest first others induction =>
      generalize same : spelled ++ rest = spelling at otherWritten
      cases otherWritten with
      | nil => exact absurd (List.append_eq_nil_iff.mp same).1 first.ne_nil
      | cons second seconds =>
          rcases first.append_inj second same with ⟨rfl, rfl⟩
          rw [induction seconds]

end WrittenAll

/-! ## Printable spellings -/

theorem mem_letters_of_shortEscape? {character : Char} {spelling : String}
    (short : shortEscape? character = some spelling) :
    ∃ letter, (character, letter) ∈ letters ∧ spelling.toList = ['\\', letter] := by
  unfold shortEscape? at short
  split at short <;> cases short <;> exact ⟨_, by decide, rfl⟩

theorem notMem_letters {character : Char} (present : character ≠ '\x00')
    (long : shortEscape? character = none) : character ∉ letters.map Prod.fst := by
  intro member
  simp only [letters, List.map_cons, List.map_nil, List.mem_cons, List.not_mem_nil,
    or_false] at member
  rcases member with rfl | rfl | rfl | rfl | rfl | rfl | rfl
  · exact present rfl
  all_goals cases long

section

variable (data : CharacterData)

theorem written_printableEscape (follows : Bool) (character : Char) :
    Written character (printableEscape data follows character).toList := by
  unfold printableEscape
  split
  · rename_i absent
    exact .letter (by rw [absent]; decide)
  · rename_i present
    split
    · rename_i spelling short
      rcases mem_letters_of_shortEscape? short with ⟨letter, known, same⟩
      rw [same]
      exact .letter known
    · rename_i long
      split
      · rw [Char.toString, String.toList_singleton]
        exact .plain (notMem_letters present long)
      · have same : (codePoint character).toList =
            '\\' :: 'u' :: '\x7b' :: (Nat.toDigits 16 character.toNat ++ ['\x7d']) := by
          simp [codePoint]
        rw [same]
        exact .codePoint

theorem writtenAll_printableText (text : String) :
    WrittenAll text.toList (printableText data text).toList := by
  have following (rest : List Char) :
      WrittenAll rest (String.join (rest.map (printableEscape data true))).toList := by
    induction rest with
    | nil => exact .nil
    | cons head tail induction =>
        rw [List.map_cons, String.join_cons, String.toList_append]
        exact .cons (written_printableEscape data true head) induction
  unfold printableText
  split
  · rename_i empty
    rw [empty]
    exact .nil
  · rename_i head tail split
    rw [split, String.toList_append]
    exact .cons (written_printableEscape data false head) (following tail)

theorem printableEscape_injective (follows : Bool) :
    Function.Injective (printableEscape data follows) := by
  intro first second same
  have spelled : (printableEscape data follows first).toList ++ [] =
      (printableEscape data follows second).toList ++ [] := by rw [same]
  exact ((written_printableEscape data follows first).append_inj
    (written_printableEscape data follows second) spelled).1

theorem printableText_injective : Function.Injective (printableText data) := by
  intro first second same
  have written := writtenAll_printableText data first
  rw [same] at written
  exact String.toList_inj.mp (written.unique (writtenAll_printableText data second))

theorem escaped_printableEscape (follows : Bool) (character : Char) :
    Escaped '\'' (printableEscape data follows character).toList :=
  (written_printableEscape data follows character).escaped (by decide)
    (fun _ => Nat.digitChar_ne '\'' rfl) (by decide)

theorem escaped_printableText (text : String) :
    Escaped '"' (printableText data text).toList :=
  (writtenAll_printableText data text).escaped (by decide)
    (fun _ => Nat.digitChar_ne '"' rfl) (by decide)

end

end Plc.Text
