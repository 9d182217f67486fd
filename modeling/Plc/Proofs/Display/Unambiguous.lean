import Plc.Proofs.Display.Expressions
import Plc.Proofs.Grammar.Offsets
import Plc.Proofs.Token.Values

/-! The expressions of programs by their texts: no two that differ in more than where they are
have the same one. -/

namespace Plc

open Text

/-! ## Names -/

namespace Token

theorem notMem_delimiters_of_isWordCharacter {character : Char}
    (inWord : isWordCharacter character = true) : character ∉ delimiters := by
  intro delimiter
  simp only [delimiters, List.mem_cons, List.not_mem_nil, or_false] at delimiter
  rcases delimiter with rfl | rfl | rfl | rfl | rfl <;> exact absurd inWord (by decide)

theorem isWordCharacter_of_isLetter {character : Char} (letter : isLetter character = true) :
    isWordCharacter character = true := by
  simp [isWordCharacter, letter]

theorem exists_cons_of_mem_identifier {text : List Char}
    (member : text ∈ Kind.identifier.language) : ∃ head tail, text = head :: tail ∧
      (head = '@' ∨ isLetter head = true) ∧ ∀ character ∈ tail, isWordCharacter character = true := by
  cases text with
  | nil => exact absurd member Kind.nil_notMem_language
  | cons head tail =>
      refine ⟨head, tail, rfl, ?_⟩
      rcases cons_mem_language_identifier.mp member with ⟨sigil, word⟩ | ⟨letter, rest⟩
      · rcases word with ⟨_, ⟨first, letter, rfl⟩, rest, more, rfl⟩
        exact ⟨.inl sigil, List.forall_mem_cons.mpr
          ⟨isWordCharacter_of_isLetter letter, forall_of_mem_kstar more⟩⟩
      · exact ⟨.inr letter, forall_of_mem_kstar rest⟩

theorem isName_of_mem_identifier {name : String}
    (member : name.toList ∈ Kind.identifier.language) (free : Literal.ofWord? name = none) :
    IsName name := by
  rcases exists_cons_of_mem_identifier member with ⟨head, tail, same, starts, rest⟩
  have first {character : Char}
      (strange : ¬(character = '@' ∨ isLetter character = true)) : head ≠ character := by
    rintro rfl
    exact strange starts
  have unsigned : ¬(head = '-' ∨ isDigit head = true) := by
    rintro (minus | digit)
    · exact first (by decide) minus
    · rcases starts with rfl | letter
      · exact absurd digit (by decide)
      · rw [isDigit_eq_false_of_isLetter letter] at digit
        cases digit
  refine ⟨?_, ?_, free⟩
  · rw [same]
    refine ⟨List.cons_ne_nil head tail, List.forall_mem_cons.mpr ⟨?_, fun character among =>
      notMem_delimiters_of_isWordCharacter (rest character among)⟩⟩
    rcases starts with rfl | letter
    · decide
    · exact notMem_delimiters_of_isWordCharacter (isWordCharacter_of_isLetter letter)
  · rw [same, Literal.kindOf, if_neg (first (by decide)), if_neg (first (by decide)),
      if_neg unsigned]

/-! ## Literals -/

theorem kind_of_ofToken? {token : Token} {literal : Literal}
    (spells : Literal.ofToken? token = some literal) : token.kind = literal.kind := by
  unfold Literal.ofToken? at spells
  dsimp only at spells
  split at spells
  · rename_i kind
    rcases Option.map_eq_some_iff.mp spells with ⟨_, _, rfl⟩
    exact kind
  · rename_i kind
    rcases Option.map_eq_some_iff.mp spells with ⟨_, _, rfl⟩
    exact kind
  · rename_i kind
    split at spells <;> cases spells
    exact kind
  · rename_i kind
    cases spells
    exact kind
  · rename_i kind
    unfold Literal.ofWord? at spells
    split at spells <;> cases spells <;> exact kind
  · cases spells

theorem among_of_ofToken? {token : Token} {literal : Literal}
    (member : token.literal.toList ∈ token.kind.language)
    (spells : Literal.ofToken? token = some literal) :
    literal.Among {value | 0 < value.scale} := by
  cases literal with
  | decimal value =>
      have kind : token.kind = .decimal := kind_of_ofToken? spells
      rw [kind] at member
      rcases exists_of_mem_decimal member with ⟨whole, fraction, same, integer, natural⟩
      simp only [Literal.ofToken?, kind] at spells
      rw [same, Literal.decimal?_append_point integer] at spells
      rcases Option.map_eq_some_iff.mp spells with ⟨_, read, same⟩
      cases same
      rcases Option.map_eq_some_iff.mp read with ⟨digits, -, rfl⟩
      exact Int.natCast_pos.mpr (List.length_pos_iff.mpr natural.nonempty)
  | _ => trivial

end Token

/-! ## Expressions -/

theorem Expr.legible_of_spellings {expression : Expr} {span : List Token}
    (spelled : span ∈ expression.spellings)
    (known : ∀ token ∈ span, token.literal.toList ∈ token.kind.language) :
    expression.Legible {value | 0 < value.scale} := by
  -- variables, elements and calls begin with their name
  have named {name : String} {others : Language Token}
      (member : span ∈ Spelling.variableName name * others) : IsName name := by
    rcases exists_cons_of_mem_one_mul member with ⟨first, rest, rfl, ⟨kind, rfl, free⟩, -⟩
    have member := known first List.mem_cons_self
    rw [kind] at member
    exact Token.isName_of_mem_identifier member free
  cases expression with
  | literal node value =>
      rcases spelled.1 with ⟨token, spells, rfl⟩
      exact Token.among_of_ofToken? (known token List.mem_cons_self) spells
  | access node name => exact named spelled.1
  | element node name index | call node name arguments =>
      have member := spelled.1
      rw [mul_assoc, mul_assoc] at member
      exact named member
  | _ => trivial

namespace Program

variable {text : String} {tokens : List Token} {program : Program}

theorem legible (scanned : Token.scan text = .ok tokens)
    (parsed : Program.ofTokens tokens = .ok program) {expression : Expr}
    (member : expression ∈ program.subterms) :
    ∀ part ∈ expression.subterms, part.Legible {value | 0 < value.scale} := by
  intro part inside
  rcases Program.contains member tokens (Program.mem_spellings parsed) with
    ⟨outer, spelled, among⟩
  rcases Expr.contains inside outer spelled with ⟨span, partSpelled, within⟩
  refine Expr.legible_of_spellings partSpelled fun token present => ?_
  exact Token.mem_language_of_scan scanned ((within.trans among).subset present)

/-- Expressions of programs that have the same text are the same apart from their numbers and
offsets, in every style that is clear for the decimals they are written with. Printing is,
whatever the character database says, unless one of these is zero: a zero is shown as an integer,
and everything else as it is. -/
theorem display_unambiguous {other : String} {others : List Token} {otherProgram : Program}
    (scanned : Token.scan text = .ok tokens) (parsed : Program.ofTokens tokens = .ok program)
    (otherScanned : Token.scan other = .ok others)
    (otherParsed : Program.ofTokens others = .ok otherProgram) {first second : Expr}
    (member : first ∈ program.subterms) (otherMember : second ∈ otherProgram.subterms) :
    (∀ style : Literal.Style, style.Clear {value | value ∈ first.decimals ++ second.decimals} →
      first.displayIn style = second.displayIn style → first.bare = second.bare) ∧
    ∀ data : CharacterData,
      ((∀ value ∈ first.decimals ++ second.decimals, value.digits ≠ 0) →
        first.displayIn (.printing data) = second.displayIn (.printing data) →
          first.bare = second.bare) ∧
      (first.displayIn (.printing data) = second.displayIn (.printing data) ↔
        first.shown.bare = second.shown.bare) := by
  have legible := legible scanned parsed member
  have otherLegible := Program.legible otherScanned otherParsed otherMember
  refine ⟨fun style clear same => ?_, fun data => ⟨fun present same => ?_,
    Expr.displayIn_eq_iff data legible otherLegible⟩⟩
  · exact Expr.bare_eq_of_displayIn clear
      (Expr.legible_imp legible fun _ written _ => List.mem_append_left _ written)
      (Expr.legible_imp otherLegible fun _ written _ => List.mem_append_right _ written) same
  · rw [List.forall_mem_append] at present
    exact Expr.bare_eq_of_displayIn (Literal.Style.printing_clear data)
      (Expr.legible_imp legible fun value written positive => ⟨present.1 value written, positive⟩)
      (Expr.legible_imp otherLegible fun value written positive =>
        ⟨present.2 value written, positive⟩) same

/-- The same call in two texts, with other spaces and behind other tokens. -/
theorem display_unambiguous_of_call :
    ∃ tokens others program otherProgram,
      Token.scan "VAL a=f(1.50,(b+'\\''));" = .ok tokens ∧
      Program.ofTokens tokens = .ok program ∧
      Token.scan "VAR b; LIST l = [ f ( 1.50 , (b + '\\'') ) ];" = .ok others ∧
      Program.ofTokens others = .ok otherProgram ∧
      ∃ first ∈ program.subterms, ∃ second ∈ otherProgram.subterms,
        first.display = "(call f 1.50 (group (+ b '\\'')))" ∧ second.display = first.display ∧
        (∀ value ∈ first.decimals ++ second.decimals, value.digits ≠ 0) ∧
        first.node ≠ second.node ∧ first.bare = second.bare := by
  have computed : ((Token.scan "VAL a=f(1.50,(b+'\\''));").toOption.any fun tokens =>
      (Program.ofTokens tokens).toOption.any fun program =>
      (Token.scan "VAR b; LIST l = [ f ( 1.50 , (b + '\\'') ) ];").toOption.any fun others =>
      (Program.ofTokens others).toOption.any fun otherProgram =>
        program.subterms.any fun first => otherProgram.subterms.any fun second =>
          first.display == "(call f 1.50 (group (+ b '\\'')))" &&
          second.display == first.display &&
          (first.decimals ++ second.decimals).all (·.digits != 0) &&
          first.node != second.node) = true := by
    decide +kernel
  rcases exists_ok_of_any computed with ⟨tokens, scanned, computed⟩
  rcases exists_ok_of_any computed with ⟨program, parsed, computed⟩
  rcases exists_ok_of_any computed with ⟨others, otherScanned, computed⟩
  rcases exists_ok_of_any computed with ⟨otherProgram, otherParsed, computed⟩
  rcases List.any_eq_true.mp computed with ⟨first, member, computed⟩
  rcases List.any_eq_true.mp computed with ⟨second, otherMember, computed⟩
  simp only [Bool.and_eq_true, beq_iff_eq, bne_iff_ne, List.all_eq_true] at computed
  rcases computed with ⟨⟨⟨shown, same⟩, present⟩, moved⟩
  have unambiguous := display_unambiguous scanned parsed otherScanned otherParsed member otherMember
  exact ⟨tokens, others, program, otherProgram, scanned, parsed, otherScanned, otherParsed,
    first, member, second, otherMember, shown, same, present, moved,
    (unambiguous.2 .usual).1 present same.symm⟩

/-- A zero loses its point. -/
example : (Expr.literal .none (.decimal ⟨0, 1⟩)).display =
    (Expr.literal .none (.integer 0)).display := by
  decide

end Program

end Plc
