import Plc.Proofs.Grammar.Phrase
import Plc.Proofs.Token.Spelled

/-! Tokens that a phrase can open with. Every rule has a phrase, so that what is missing of
a longer one can always be supplied. -/

namespace Plc.Grammar

/-- The tokens open a phrase of the form, and all tokens of the phrase are spelled. -/
def Form.Viable (form : Form α) (read : List Token) : Prop :=
  ∃ phrase : Phrase form, read <+: phrase.tokens ∧ ∀ token ∈ phrase.tokens, token.Spelled

namespace Form

variable {form : Form α} {second : Form β} {make : α → β → γ} {read : List Token}

theorem Viable.of_phrase (phrase : Phrase form)
    (spelled : ∀ token ∈ phrase.tokens, token.Spelled) : form.Viable phrase.tokens :=
  ⟨phrase, List.prefix_rfl, spelled⟩

theorem Viable.nil (viable : form.Viable read) : form.Viable [] := by
  rcases viable with ⟨phrase, _, spelled⟩
  exact ⟨phrase, List.nil_prefix, spelled⟩

theorem Viable.widen {wider : Form β} (viable : form.Viable read)
    (includes : ∀ phrase : Phrase form, ∃ other : Phrase wider, other.tokens = phrase.tokens) :
    wider.Viable read := by
  rcases viable with ⟨phrase, opens, spelled⟩
  rcases includes phrase with ⟨other, same⟩
  exact ⟨other, same ▸ opens, same ▸ spelled⟩

theorem Viable.left {right : Form α} (viable : form.Viable read) :
    (Form.choice form right).Viable read :=
  viable.widen fun phrase => ⟨phrase.left, rfl⟩

theorem Viable.right {left : Form α} (viable : form.Viable read) :
    (Form.choice left form).Viable read :=
  viable.widen fun phrase => ⟨phrase.right, rfl⟩

theorem Viable.rule {name : Rule} {make : name.Tree → α} (viable : (rules name).Viable read) :
    (Form.rule name make).Viable read :=
  viable.widen fun phrase => ⟨phrase.rule, rfl⟩

theorem Viable.sequence (viable : form.Viable read) (completes : second.Viable []) :
    (Form.sequence form second make).Viable read := by
  rcases viable with ⟨front, opens, spelled⟩
  rcases completes with ⟨back, _, backSpelled⟩
  refine ⟨front.sequence back, opens.trans (List.prefix_append _ _), fun token member => ?_⟩
  rcases List.mem_append.mp member with member | member
  · exact spelled token member
  · exact backSpelled token member

theorem Viable.append (front : Phrase form) (spelled : ∀ token ∈ front.tokens, token.Spelled)
    (viable : second.Viable read) :
    (Form.sequence form second make).Viable (front.tokens ++ read) := by
  rcases viable with ⟨back, opens, backSpelled⟩
  refine ⟨front.sequence back, (List.prefix_append_right_inj _).mpr opens,
    fun token member => ?_⟩
  rcases List.mem_append.mp member with member | member
  · exact spelled token member
  · exact backSpelled token member

theorem Viable.guarded {property : Token → Bool} {token : Token}
    (viable : form.Viable (token :: read)) (allowed : property token = true) :
    (Form.guarded property form).Viable (token :: read) := by
  rcases viable with ⟨⟨_, derivation⟩, ⟨rest, rfl⟩, spelled⟩
  exact ⟨⟨token :: (read ++ rest), .guarded derivation allowed⟩, List.prefix_append _ _, spelled⟩

/-! ## Forms that have a phrase -/

theorem viable_terminal {property : Token → Bool} {make : Token → α} {token : Token}
    (fits : property token = true) (spelled : token.Spelled) :
    (Form.terminal property make).Viable [] :=
  ⟨⟨[token], .terminal token fits⟩, List.nil_prefix, fun other member => by
    rw [List.mem_singleton.mp member]
    exact spelled⟩

@[simp] theorem viable_word (literal : String) (make : Token → α) :
    (Form.terminal (·.isWord literal) make).Viable [] :=
  viable_terminal (Token.isWord_iff.mpr ⟨rfl, rfl⟩ : Token.isWord ⟨.identifier, literal, 0⟩ _ = _)
    fun identifier => absurd rfl identifier

@[simp] theorem viable_symbol (literal : String) (make : Token → α) :
    (Form.terminal (·.isSymbol literal) make).Viable [] :=
  viable_terminal (Token.isSymbol_iff.mpr ⟨rfl, rfl⟩ : Token.isSymbol ⟨.operator, literal, 0⟩ _ = _)
    fun _ operator => absurd rfl operator

@[simp] theorem viable_name : Form.name.Viable [] :=
  viable_terminal (rfl : ((⟨.identifier, "", 0⟩ : Token).kind == .identifier) = true)
    fun identifier => absurd rfl identifier

@[simp] theorem viable_nothing (value : α) : (Form.nothing value).Viable [] :=
  ⟨⟨[], .nothing⟩, List.nil_prefix, fun _ member => by cases member⟩

@[simp] theorem viable_many (nil : β) (cons : α → β → β) : (Form.many form nil cons).Viable [] :=
  ⟨.done, List.nil_prefix, fun _ member => by cases member⟩

@[simp] theorem viable_sequence :
    (Form.sequence form second make).Viable [] ↔ form.Viable [] ∧ second.Viable [] := by
  constructor
  · rintro ⟨phrase, _, spelled⟩
    rcases phrase.sequence_cases with ⟨front, back, rfl⟩
    exact ⟨⟨front, List.nil_prefix, fun token member => spelled token
      (List.mem_append_left _ member)⟩, ⟨back, List.nil_prefix, fun token member =>
      spelled token (List.mem_append_right _ member)⟩⟩
  · exact fun viable => viable.1.sequence viable.2

@[simp] theorem viable_choice {right : Form α} :
    (Form.choice form right).Viable [] ↔ form.Viable [] ∨ right.Viable [] := by
  constructor
  · rintro ⟨phrase, opens, spelled⟩
    rcases phrase.choice_cases with ⟨inner, rfl⟩ | ⟨inner, rfl⟩
    · exact .inl ⟨inner, opens, spelled⟩
    · exact .inr ⟨inner, opens, spelled⟩
  · rintro (viable | viable)
    · exact viable.left
    · exact viable.right

theorem Viable.global {isMutable : Bool} {value : Form (Option Expr)} (viable : value.Viable []) :
    (Form.global isMutable value).Viable [] := by
  simp [Form.global, viable]

end Form

theorem Form.Viable.level {read : List Token} (primary : (rules .primary).Viable read) :
    ∀ name ∈ [Rule.factor, .term, .comparison, .logical, .expression],
      (rules name).Viable read := by
  have factor : (rules .factor).Viable read := .sequence primary.rule (Form.viable_many ..)
  have term : (rules .term).Viable read := .sequence factor.rule (Form.viable_many ..)
  have comparison : (rules .comparison).Viable read := .sequence term.rule (Form.viable_many ..)
  have logical : (rules .logical).Viable read := .sequence comparison.rule (Form.viable_many ..)
  intro name member
  simp only [List.mem_cons, List.not_mem_nil, or_false] at member
  rcases member with rfl | rfl | rfl | rfl | rfl
  · exact factor
  · exact term
  · exact comparison
  · exact logical
  · exact logical.rule

theorem rules_viable (name : Rule) : (rules name).Viable [] := by
  have primary : (rules .primary).Viable [] := (Form.viable_word "NIL" _).left
  have expression := primary.level .expression (by decide)
  have block : (rules .block).Viable [] := Form.viable_many ..
  have mutable : (rules .mutable).Viable [] :=
    .sequence (Form.viable_word ..) (.global (by simp))
  cases name with
  | source => exact .sequence (Form.viable_many ..) (Form.viable_many ..)
  | global => exact mutable.rule.left.right
  | list => exact .sequence (Form.viable_word ..) (.global (by simp [Form.elements]))
  | mutable => exact mutable
  | immutable =>
      exact .sequence (Form.viable_word ..)
        (.global (.sequence (Form.viable_symbol ..) expression.rule))
  | function =>
      have body : Form.block.Viable [] := block.rule
      have function : Form.function.Viable [] := by simp [Form.function, body]
      exact .sequence (Form.viable_word ..) function
  | parameters =>
      have parameter : Form.parameter.Viable [] := by simp [Form.parameter]
      exact .sequence parameter (Form.viable_many ..)
  | block => exact block
  | statement =>
      have declaration : Form.declaration.Viable [] := by simp [Form.declaration]
      exact .left (.sequence (Form.viable_word ..) declaration)
  | primary => exact primary
  | arguments => exact .sequence expression.rule (Form.viable_many ..)
  | _ => exact primary.level _ (by decide)

namespace Form

@[simp] theorem viable_rule {name : Rule} (make : name.Tree → α) :
    (Form.rule name make).Viable [] :=
  (rules_viable name).rule

@[simp] theorem viable_expression : Form.expression.Viable [] :=
  viable_rule id

@[simp] theorem viable_block : Form.block.Viable [] :=
  viable_rule id

@[simp] theorem viable_simple :
    (Form.guarded (fun token => !keywords.any token.isWord) Form.simple).Viable [] := by
  let nil : Token := ⟨.identifier, "NIL", 0⟩
  have word : (Form.constant "NIL" .nil).Viable [nil] :=
    .of_phrase ⟨[nil], .terminal nil rfl⟩ (by simp [nil, Token.Spelled])
  have primary : (rules .primary).Viable [nil] := word.left
  have expression : Form.expression.Viable [nil] :=
    (primary.level .expression (by decide)).rule
  have simple : Form.simple.Viable [nil] := expression.sequence (by simp)
  exact (simple.guarded (by decide)).nil

end Form

end Plc.Grammar
