import Plc.Proofs.Grammar.First

/-! Phrases of a form, and where they can stand in a list of tokens. -/

namespace Plc.Grammar

/-! ## Phrases -/

structure Phrase (form : Form α) where
  tokens : List Token
  derivation : Derivation form tokens

def Phrase.value {form : Form α} (phrase : Phrase form) : α :=
  phrase.derivation.value

namespace Phrase

variable {form : Form α}

def sequence {second : Form β} {make : α → β → γ} (head : Phrase form) (tail : Phrase second) :
    Phrase (.sequence form second make) :=
  ⟨head.tokens ++ tail.tokens, .sequence head.derivation tail.derivation⟩

def left {right : Form α} (phrase : Phrase form) : Phrase (.choice form right) :=
  ⟨phrase.tokens, .left phrase.derivation⟩

def right {left : Form α} (phrase : Phrase form) : Phrase (.choice left form) :=
  ⟨phrase.tokens, .right phrase.derivation⟩

def done {nil : β} {cons : α → β → β} : Phrase (.many form nil cons) :=
  ⟨[], .done⟩

def more {nil : β} {cons : α → β → β} (head : Phrase form) (tail : Phrase (.many form nil cons)) :
    Phrase (.many form nil cons) :=
  ⟨head.tokens ++ tail.tokens, .more head.derivation tail.derivation⟩

def ofSequence {nil : β} {cons : α → β → β} :
    Phrase (.sequence form (.many form nil cons) cons) → Phrase (.many form nil cons)
  | ⟨_, .sequence head tail⟩ => ⟨_, .more head tail⟩

def rule {name : Rule} {make : name.Tree → α} (phrase : Phrase (rules name)) :
    Phrase (.rule name make) :=
  ⟨phrase.tokens, .rule phrase.derivation⟩

/-! The last step of every derivation. -/

theorem terminal_cases {property : Token → Bool} {make : Token → α}
    (phrase : Phrase (.terminal property make)) :
    ∃ token, ∃ fits : property token = true, phrase = ⟨[token], .terminal token fits⟩ := by
  rcases phrase with ⟨tokens, derivation⟩
  cases derivation with
  | terminal token fits => exact ⟨token, fits, rfl⟩

theorem nothing_cases {value : α} (phrase : Phrase (.nothing value)) :
    phrase = ⟨[], .nothing⟩ := by
  rcases phrase with ⟨tokens, derivation⟩
  cases derivation with
  | nothing => rfl

theorem sequence_cases {second : Form β} {make : α → β → γ}
    (phrase : Phrase (.sequence form second make)) :
    ∃ (head : Phrase form) (tail : Phrase second), phrase = head.sequence tail := by
  rcases phrase with ⟨tokens, derivation⟩
  cases derivation with
  | sequence head tail => exact ⟨⟨_, head⟩, ⟨_, tail⟩, rfl⟩

theorem choice_cases {right : Form α} (phrase : Phrase (.choice form right)) :
    (∃ inner : Phrase form, phrase = inner.left) ∨
      ∃ inner : Phrase right, phrase = inner.right := by
  rcases phrase with ⟨tokens, derivation⟩
  cases derivation with
  | left inner => exact .inl ⟨⟨_, inner⟩, rfl⟩
  | right inner => exact .inr ⟨⟨_, inner⟩, rfl⟩

theorem many_cases {nil : β} {cons : α → β → β} (phrase : Phrase (.many form nil cons)) :
    phrase = .done ∨ ∃ (head : Phrase form) (tail : Phrase (.many form nil cons)),
      phrase = head.more tail := by
  rcases phrase with ⟨tokens, derivation⟩
  cases derivation with
  | done => exact .inl rfl
  | more head tail => exact .inr ⟨⟨_, head⟩, ⟨_, tail⟩, rfl⟩

theorem guarded_cases {property : Token → Bool} (phrase : Phrase (.guarded property form)) :
    ∃ token tokens, ∃ (inner : Derivation form (token :: tokens))
      (allowed : property token = true), phrase = ⟨token :: tokens, .guarded inner allowed⟩ := by
  rcases phrase with ⟨tokens, derivation⟩
  cases derivation with
  | guarded inner allowed => exact ⟨_, _, inner, allowed, rfl⟩

theorem rule_cases {name : Rule} {make : name.Tree → α} (phrase : Phrase (.rule name make)) :
    ∃ inner : Phrase (rules name), phrase = inner.rule := by
  rcases phrase with ⟨tokens, derivation⟩
  cases derivation with
  | rule inner => exact ⟨⟨_, inner⟩, rfl⟩

theorem tokens_ne_nil (phrase : Phrase form) (nonempty : form.nullable = false) :
    phrase.tokens ≠ [] := by
  intro empty
  have nullable := phrase.derivation.begins.1 empty
  rw [nonempty] at nullable
  cases nullable

end Phrase

/-- What comes next, a token or the end of the text, does not continue a phrase. -/
def Stops (continues : Option Token → Bool) (rest : List Token) : Prop :=
  continues rest.head? = false

/-- The phrase is at the front of the tokens, and ends where `rest` begins. -/
structure Phrase.Fronts {form : Form α} (phrase : Phrase form) (continues : Option Token → Bool)
    (tokens rest : List Token) : Prop where
  stops : Stops continues rest
  eq : phrase.tokens ++ rest = tokens

theorem Stops.mono {continues others : Option Token → Bool} {rest : List Token}
    (stops : Stops others rest)
    (included : ∀ next, continues next = true → others next = true) :
    Stops continues rest := by
  apply Bool.eq_false_iff.mpr
  intro continuing
  rw [Stops, included _ continuing] at stops
  cases stops

/-- What comes next neither begins a phrase of the form nor stops for an empty one. -/
structure Form.Avoids (form : Form α) (others : Option Token → Bool) (next : Option Token) :
    Prop where
  first : ∀ token ∈ next, form.first token = false
  empty : form.nullable = true → others next = true

theorem Form.Avoids.of_token {form : Form α} {others : Option Token → Bool} {token : Token}
    (first : form.first token = false)
    (empty : form.nullable = true → others (some token) = true) :
    form.Avoids others (some token) := by
  refine ⟨fun same member => ?_, empty⟩
  cases member
  exact first

theorem Form.Avoids.of_nonempty {form : Form α} {others : Option Token → Bool}
    {next : Option Token} (nonempty : form.nullable = false)
    (first : ∀ token ∈ next, form.first token = false) : form.Avoids others next := by
  refine ⟨first, fun nullable => ?_⟩
  rw [nonempty] at nullable
  cases nullable

theorem Stops.append {form : Form α} {continues others : Option Token → Bool} {rest : List Token}
    (stops : Stops others rest) (phrase : Phrase form)
    (apart : ∀ next, continues next = true → form.Avoids others next) :
    Stops continues (phrase.tokens ++ rest) := by
  rcases phrase with ⟨tokens, derivation⟩
  have begins := derivation.begins
  cases tokens with
  | nil => exact stops.mono fun next continuing => (apart next continuing).empty (begins.1 rfl)
  | cons start tail =>
      apply Bool.eq_false_iff.mpr
      intro continuing
      have first := begins.2 start rfl
      rw [(apart _ continuing).first start rfl] at first
      cases first

end Plc.Grammar
