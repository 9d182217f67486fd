import Mathlib.Data.Set.Function
import Plc.Literal
import Plc.Proofs.Display.Decimals
import Plc.Proofs.Display.Symbolic

/-! The texts of literals. The kind of a literal can be told from its text, and so can the literal
if characters, quoted text and decimals are written clearly. -/

namespace Plc

open Text

/-! ## Numerals and names as words -/

namespace Literal

theorem IsNumeral.isWord {text : List Char} (numeral : IsNumeral text) : IsWord text where
  nonempty := by
    rintro rfl
    rcases numeral.first with ⟨_, impossible, -⟩
    cases impossible
  undivided character member delimiter := by
    simp only [delimiters, List.mem_cons, List.not_mem_nil, or_false] at delimiter
    rcases numeral.characters character member with digit | sign
    · rcases delimiter with rfl | rfl | rfl | rfl | rfl <;> exact absurd digit (by decide)
    · rcases delimiter with rfl | rfl | rfl | rfl | rfl <;> exact absurd sign (by decide)

/-! ## Kinds of texts -/

def kind : Literal → Token.Kind
  | .nil | .boolean _ => .identifier
  | .integer _ => .integer
  | .decimal _ => .decimal
  | .character _ => .character
  | .string _ => .string

/-- The kind of what is written like this: quoted, a number or a word. -/
def kindOf : List Char → Token.Kind
  | [] => .identifier
  | head :: tail =>
      if head = '\'' then .character
      else if head = '"' then .string
      else if head = '-' ∨ Token.isDigit head = true then
        if '.' ∈ head :: tail ∨ 'E' ∈ head :: tail then .decimal else .integer
      else .identifier

theorem kindOf_numeral {text : List Char} (numeral : IsNumeral text) :
    kindOf text = if '.' ∈ text ∨ 'E' ∈ text then .decimal else .integer := by
  rcases numeral.first with ⟨head, first, starts⟩
  cases text with
  | nil => cases first
  | cons other tail =>
      cases first
      have unquoted {quote : Char} (strange : ¬(quote = '-' ∨ Token.isDigit quote = true)) :
          head ≠ quote := by
        rintro rfl
        exact strange starts
      rw [kindOf, if_neg (unquoted (by decide)), if_neg (unquoted (by decide)), if_pos starts]

/-! ## Styles -/

/-- Different characters and different texts are written differently and without a quote that
is not escaped. So are, among some decimals, different ones, as numbers that a point or an
exponent tells from integers. -/
structure Style.Clear (style : Style) (decimals : Set Decimal) : Prop where
  character_injective : Function.Injective style.character
  character_escaped : ∀ value, Escaped '\'' (style.character value).toList
  text_injective : Function.Injective style.text
  text_escaped : ∀ value, Escaped '"' (style.text value).toList
  decimal_injOn : Set.InjOn style.decimal decimals
  decimal_isNumeral : ∀ value ∈ decimals, IsNumeral (style.decimal value).toList
  decimal_marked : ∀ value ∈ decimals,
    '.' ∈ (style.decimal value).toList ∨ 'E' ∈ (style.decimal value).toList

def Among (decimals : Set Decimal) : Literal → Prop
  | .decimal value => value ∈ decimals
  | _ => True

section

variable {style : Style} {decimals : Set Decimal} {literal other : Literal}

theorem toList_quoted (quote inner : String) :
    (quote ++ inner ++ quote).toList = quote.toList ++ (inner.toList ++ quote.toList) := by
  simp

theorem isAtom_displayIn (clear : style.Clear decimals) (among : literal.Among decimals) :
    IsAtom (literal.displayIn style).toList := by
  cases literal with
  | nil =>
      rw [displayIn]
      exact .word (by decide)
  | boolean value =>
      cases value <;> rw [displayIn] <;> exact .word (by decide)
  | integer value => exact .word (isInteger_toString value).isNumeral.isWord
  | decimal value => exact .word (clear.decimal_isNumeral value among).isWord
  | character value =>
      rw [displayIn, toList_quoted]
      exact .quoted (by decide) (clear.character_escaped value)
  | string value =>
      rw [displayIn, toList_quoted]
      exact .quoted (by decide) (clear.text_escaped value)

theorem kindOf_displayIn (clear : style.Clear decimals) (among : literal.Among decimals) :
    kindOf (literal.displayIn style).toList = literal.kind := by
  cases literal with
  | nil =>
      rw [displayIn]
      decide
  | boolean value =>
      cases value <;> rw [displayIn] <;> decide
  | integer value =>
      have integer := isInteger_toString value
      have unmarked : ¬('.' ∈ (toString value).toList ∨ 'E' ∈ (toString value).toList) := by
        rintro (point | exponent)
        · exact integer.notMem rfl (by decide) point
        · exact integer.notMem rfl (by decide) exponent
      exact (kindOf_numeral integer.isNumeral).trans (if_neg unmarked)
  | decimal value =>
      exact (kindOf_numeral (clear.decimal_isNumeral value among)).trans
        (if_pos (clear.decimal_marked value among))
  | character value =>
      rw [displayIn, toList_quoted]
      rfl
  | string value =>
      rw [displayIn, toList_quoted]
      rfl

theorem ofWord?_displayIn (style : Style) (word : literal.kind = .identifier) :
    ofWord? (literal.displayIn style) = some literal := by
  cases literal with
  | nil => rfl
  | boolean value => cases value <;> rfl
  | _ => cases word

theorem quoted_inj {quote first second : String}
    (same : quote ++ first ++ quote = quote ++ second ++ quote) : first = second := by
  have texts := congrArg String.toList same
  rw [toList_quoted, toList_quoted] at texts
  exact String.toList_inj.mp (List.append_cancel_right (List.append_cancel_left texts))

theorem displayIn_inj (clear : style.Clear decimals) (among : literal.Among decimals)
    (otherAmong : other.Among decimals) (same : literal.displayIn style = other.displayIn style) :
    literal = other := by
  have kinds : literal.kind = other.kind := by
    rw [← kindOf_displayIn clear among, same, kindOf_displayIn clear otherAmong]
  cases literal with
  | nil | boolean =>
      apply Option.some.inj
      rw [← ofWord?_displayIn style rfl, same, ofWord?_displayIn style kinds.symm]
  | integer value =>
      cases other with
      | integer => rw [toString_injective same]
      | _ => cases kinds
  | decimal value =>
      cases other with
      | decimal => rw [clear.decimal_injOn among otherAmong same]
      | _ => cases kinds
  | character value =>
      cases other with
      | character => rw [clear.character_injective (quoted_inj same)]
      | _ => cases kinds
  | string value =>
      cases other with
      | string => rw [clear.text_injective (quoted_inj same)]
      | _ => cases kinds

end

/-! ## Printing -/

section

variable (data : CharacterData)

/-- Whatever version of the character database there is, texts are told apart. -/
theorem Style.printing_clear :
    (printing data).Clear {value | value.digits ≠ 0 ∧ 0 < value.scale} where
  character_injective := printableEscape_injective data false
  character_escaped := escaped_printableEscape data false
  text_injective := printableText_injective data
  text_escaped := escaped_printableText data
  decimal_injOn _ first _ second same :=
    Decimal.display_inj first.1 first.2 second.1 second.2 same
  decimal_isNumeral _ known := (Decimal.written_display known.1 known.2).isNumeral
  decimal_marked _ known := (Decimal.written_display known.1 known.2).marked

/-- The literal that the text is read as: a decimal that is zero is written as an integer. -/
def shown : Literal → Literal
  | .decimal value => if value.digits = 0 then .integer 0 else .decimal value
  | other => other

theorem displayIn_shown (literal : Literal) :
    literal.shown.displayIn (.printing data) = literal.displayIn (.printing data) := by
  cases literal with
  | decimal value =>
      rw [shown]
      split
      · rename_i zero
        change toString (0 : Int) = Decimal.display value
        rw [Decimal.display, if_pos zero]
        rfl
      · rfl
  | _ => rfl

end

theorem shown_among {literal : Literal} (positive : literal.Among {value | 0 < value.scale}) :
    literal.shown.Among {value | value.digits ≠ 0 ∧ 0 < value.scale} := by
  cases literal with
  | decimal value =>
      rw [shown]
      split
      · trivial
      · rename_i present
        exact ⟨present, positive⟩
  | _ => trivial

end Literal

/-! ## Names -/

/-- A word that is neither a literal nor written like one. -/
structure IsName (name : String) : Prop where
  word : IsWord name.toList
  kind : Literal.kindOf name.toList = .identifier
  free : Literal.ofWord? name = none

theorem IsName.ne_displayIn {name : String} {literal : Literal} {style : Literal.Style}
    {decimals : Set Decimal} (named : IsName name) (clear : style.Clear decimals)
    (among : literal.Among decimals) : name ≠ literal.displayIn style := by
  rintro rfl
  have word := named.kind
  rw [Literal.kindOf_displayIn clear among] at word
  exact absurd named.free (by simp [Literal.ofWord?_displayIn style word])

end Plc
