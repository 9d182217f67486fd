import Plc.Parser.Program
import Plc.Proofs.Grammar.Form

/-! The tokens that a phrase can begin with, and whether it can be empty. -/

namespace Plc

/-! ## Words and symbols -/

namespace Token

variable {token : Token} {literal other : String}

theorem isWord_iff : token.isWord literal = true ↔
    token.kind = .identifier ∧ token.literal = literal := by
  simp [isWord]

theorem isSymbol_iff : token.isSymbol literal = true ↔
    token.kind = .operator ∧ token.literal = literal := by
  simp [isSymbol]

theorem isSymbol_eq_false (isSymbol : token.isSymbol literal = true) (different : literal ≠ other) :
    token.isSymbol other = false := by
  simp [Token.isSymbol, (isSymbol_iff.mp isSymbol).2, different]

theorem isWord_eq_false (isWord : token.isWord literal = true) (different : literal ≠ other) :
    token.isWord other = false := by
  simp [Token.isWord, (isWord_iff.mp isWord).2, different]

end Token

namespace Grammar

/-! ## Empty phrases -/

@[simp] def Rule.nullable : Rule → Bool
  | .source | .block => true
  | _ => false

/-- Whether no tokens at all can follow from the form. -/
@[simp] def Form.nullable : Form α → Bool
  | .terminal _ _ => false
  | .nothing _ => true
  | .sequence first second _ => first.nullable && second.nullable
  | .choice left right => left.nullable || right.nullable
  | .many _ _ _ => true
  | .guarded _ _ => false
  | .rule name _ => name.nullable

theorem rules_nullable (name : Rule) (nullable : (rules name).nullable = true) :
    name.nullable = true := by
  cases name with
  | source | block => rfl
  | _ => cases nullable

/-! ## First tokens -/

def Rule.first : Rule → Token → Bool
  | .list => (·.isWord "LIST")
  | .mutable => (·.isWord "VAR")
  | .immutable => (·.isWord "VAL")
  | .global => fun token => token.isWord "LIST" || token.isWord "VAR" || token.isWord "VAL"
  | .function => (·.isWord "FUN")
  | .source => fun token => token.isWord "LIST" || token.isWord "VAR" || token.isWord "VAL" ||
      token.isWord "FUN"
  | .parameters => (·.kind == .identifier)
  | .block | .statement => fun token => Parser.startsExpression token && !Parser.endsBlock token
  | .expression | .logical | .comparison | .term | .factor | .primary | .arguments =>
      Parser.startsExpression

/-- Whether a phrase of the form can begin with the token. -/
@[simp] def Form.first : Form α → Token → Bool
  | .terminal property _ => property
  | .nothing _ => fun _ => false
  | .sequence first second _ => fun token =>
      first.first token || (first.nullable && second.first token)
  | .choice left right => fun token => left.first token || right.first token
  | .many item _ _ => item.first
  | .guarded property form => fun token => property token && form.first token
  | .rule name _ => name.first

theorem endsBlock_eq_false {token : Token}
    (others : ∀ literal ∈ ["END", "ELSE", "CASE", "DEFAULT"], token.isWord literal = false) :
    Parser.endsBlock token = false := by
  simpa [Parser.endsBlock, and_assoc] using others

theorem rules_first (name : Rule) (token : Token) (first : (rules name).first token = true) :
    name.first token = true := by
  cases name with
  | list | mutable | immutable | function | global | expression | source | block =>
      simpa [rules, Rule.first, or_assoc] using first
  | parameters | arguments =>
      simpa [rules, Form.parameter, Rule.first, Rule.nullable] using first
  | logical | comparison | term | factor =>
      simpa [rules, Form.chain, Rule.first, Rule.nullable] using first
  | primary =>
      rw [Rule.first, Parser.startsExpression]
      by_cases operator : token.kind = .operator
      · have opens : token.isSymbol "(" = true := by
          simpa [rules, Token.isWord, operator] using first
        simp [(Token.isSymbol_iff.mp opens).2]
      · simp [operator]
  | statement =>
      have cases : (∃ literal ∈ ["LET", "IF", "SWITCH", "WHILE", "RETURN"],
          token.isWord literal = true) ∨
          (∀ literal ∈ keywords, token.isWord literal = false) ∧
            Parser.startsExpression token = true := by
        simpa [rules, Form.simple, Rule.first, or_assoc] using first
      have apart : ∀ literal ∈ ["LET", "IF", "SWITCH", "WHILE", "RETURN"],
          ∀ other ∈ ["END", "ELSE", "CASE", "DEFAULT"], literal ≠ other := by decide
      have included : ∀ literal ∈ ["END", "ELSE", "CASE", "DEFAULT"], literal ∈ keywords := by
        decide
      change (Parser.startsExpression token && !Parser.endsBlock token) = true
      rcases cases with ⟨literal, member, isWord⟩ | ⟨others, starts⟩
      · have starts : Parser.startsExpression token = true := by
          simp [Parser.startsExpression, (Token.isWord_iff.mp isWord).1]
        have ends := endsBlock_eq_false fun other member' =>
          Token.isWord_eq_false isWord (apart literal member other member')
        rw [starts, ends]
        rfl
      · have ends := endsBlock_eq_false fun literal member =>
          others literal (included literal member)
        rw [starts, ends]
        rfl

theorem Derivation.begins {form : Form α} {tokens : List Token}
    (derivation : Derivation form tokens) :
    (tokens = [] → form.nullable = true) ∧
      ∀ token ∈ tokens.head?, form.first token = true := by
  induction derivation with
  | terminal token fits =>
      refine ⟨fun impossible => (by cases impossible), fun token member => ?_⟩
      cases member
      exact fits
  | nothing => exact ⟨fun _ => rfl, fun _ member => by cases member⟩
  | @sequence _ _ _ first second make front back head tail headBegins tailBegins =>
      refine ⟨fun empty => ?_, fun token member => ?_⟩
      · rw [List.append_eq_nil_iff] at empty
        simp [Form.nullable, headBegins.1 empty.1, tailBegins.1 empty.2]
      · rw [Form.first]
        cases front with
        | nil => simp [headBegins.1 rfl, tailBegins.2 token member]
        | cons start rest => simp [headBegins.2 token member]
  | left inner begins | right inner begins =>
      refine ⟨fun empty => ?_, fun token member => ?_⟩
      · simp [Form.nullable, begins.1 empty]
      · simp [Form.first, begins.2 token member]
  | done => exact ⟨fun _ => rfl, fun _ member => by cases member⟩
  | @more _ _ item nil cons front back head tail headBegins tailBegins =>
      refine ⟨fun _ => rfl, fun token member => ?_⟩
      cases front with
      | nil => exact tailBegins.2 token member
      | cons start rest => exact headBegins.2 token member
  | guarded inner allowed begins =>
      refine ⟨fun impossible => (by cases impossible), fun token member => ?_⟩
      have start := begins.2 token member
      cases member
      simp [Form.first, allowed, start]
  | rule inner begins =>
      exact ⟨fun empty => rules_nullable _ (begins.1 empty), fun token member =>
        rules_first _ token (begins.2 token member)⟩

end Grammar

end Plc
