import Plc.Proofs.Grammar.Bare
import Plc.Proofs.Grammar.Choices

/-! Operators, and operands that are joined by the operators of one level. -/

namespace Plc

open Grammar

/-! ## Operators -/

theorem Operator.ofSymbol?_eq_some {symbol : String} {operator : Operator} :
    Operator.ofSymbol? symbol = some operator ↔ operator.symbol = symbol := by
  constructor
  · intro found
    rw [ofSymbol?] at found
    simpa using List.find?_some found
  · rintro rfl
    exact ofSymbol?_symbol operator

theorem Operator.mem_iff_of_level {level : Operator.Level} {operators : List Operator}
    (ofLevel : Operator.all.filter (·.level == level) = operators) (operator : Operator) :
    operator ∈ operators ↔ operator.level = level := by
  rw [← ofLevel, List.mem_filter, beq_iff_eq]
  exact and_iff_right (Operator.mem_all operator)

def Token.isOneOf (operators : List Operator) (token : Token) : Bool :=
  operators.any fun operator => token.isSymbol operator.symbol

theorem Token.exists_of_isOneOf {operators : List Operator} {token : Token}
    (fits : token.isOneOf operators = true) :
    ∃ operator ∈ operators, Operator.ofSymbol? token.literal = some operator := by
  rcases List.any_eq_true.mp fits with ⟨operator, member, isSymbol⟩
  exact ⟨operator, member, Operator.ofSymbol?_eq_some.mpr (isSymbol_iff.mp isSymbol).2.symm⟩

theorem Token.isOneOf_eq_false {operators others : List Operator} {token : Token}
    (fits : token.isOneOf operators = true)
    (disjoint : ∀ operator ∈ operators, operator ∉ others) : token.isOneOf others = false := by
  apply Bool.eq_false_iff.mpr
  intro other
  rcases exists_of_isOneOf fits with ⟨operator, member, found⟩
  rcases exists_of_isOneOf other with ⟨same, otherMember, alsoFound⟩
  rw [found] at alsoFound
  cases alsoFound
  exact disjoint operator member otherMember

def Token.selects (token : Token) : Bool :=
  token.isSymbol "(" || token.isSymbol "["

theorem Token.isOneOf_of_selects {operators : List Operator} {token : Token}
    (selecting : token.selects = true) : token.isOneOf operators = false := by
  apply Bool.eq_false_iff.mpr
  intro fits
  rcases exists_of_isOneOf fits with ⟨operator, _, found⟩
  have none : Operator.ofSymbol? "(" = none ∧ Operator.ofSymbol? "[" = none := by decide
  rcases Bool.or_eq_true_iff.mp selecting with opens | opens
  · rw [(isSymbol_iff.mp opens).2, none.1] at found
    cases found
  · rw [(isSymbol_iff.mp opens).2, none.2] at found
    cases found

/-- Whether the token can be read as more of an expression that is made with the operators. -/
def Token.continues (operators : List Operator) (token : Token) : Bool :=
  token.isOneOf operators || token.selects

theorem Token.isOneOf_of_continues {operators others : List Operator} {token : Token}
    (continuing : token.continues operators = true)
    (disjoint : ∀ operator ∈ operators, operator ∉ others) : token.isOneOf others = false := by
  rcases Bool.or_eq_true_iff.mp continuing with fits | selecting
  · exact isOneOf_eq_false fits disjoint
  · exact isOneOf_of_selects selecting

def Token.continuesExpression (token : Token) : Bool :=
  token.continues Operator.all

theorem Token.continuesExpression_of_isSymbol {token : Token} {literal : String}
    (isSymbol : token.isSymbol literal = true)
    (other : Operator.ofSymbol? literal = none ∧ literal ≠ "(" ∧ literal ≠ "[") :
    token.continuesExpression = false := by
  have spelled := (isSymbol_iff.mp isSymbol).2
  have operator : token.isOneOf Operator.all = false := by
    apply Bool.eq_false_iff.mpr
    intro fits
    rcases exists_of_isOneOf fits with ⟨operator, _, found⟩
    rw [spelled, other.1] at found
    cases found
  simp [continuesExpression, continues, operator, selects, Token.isSymbol, spelled, other]

theorem Token.continuesExpression_of_isWord {token : Token} {literal : String}
    (isWord : token.isWord literal = true) : token.continuesExpression = false := by
  simp [continuesExpression, continues, isOneOf, selects, isSymbol, (isWord_iff.mp isWord).1]

namespace Parser

variable {limit : Nat} {continues : Option Token → Bool}

theorem binds_eq {level : Operator.Level} {operators : List Operator}
    (ofLevel : ∀ operator, operator ∈ operators ↔ operator.level = level) (token : Token) :
    (token.kind == .operator &&
      (Operator.ofSymbol? token.literal).any (·.level == level)) = token.isOneOf operators := by
  rw [Bool.eq_iff_iff]
  constructor
  · intro binds
    rw [Bool.and_eq_true, beq_iff_eq, Option.any_eq_true] at binds
    rcases binds with ⟨kind, operator, found, same⟩
    refine List.any_eq_true.mpr ⟨operator, (ofLevel operator).mpr (beq_iff_eq.mp same), ?_⟩
    exact Token.isSymbol_iff.mpr ⟨kind, (Operator.ofSymbol?_eq_some.mp found).symm⟩
  · intro fits
    rcases Token.exists_of_isOneOf fits with ⟨operator, member, found⟩
    rcases List.any_eq_true.mp fits with ⟨_, _, isSymbol⟩
    rw [(Token.isSymbol_iff.mp isSymbol).1, found, Option.any_some, (ofLevel operator).mp member]
    simp

section

variable {level : Operator.Level} {operators : List Operator} {cursor : Cursor}

theorem run_operator?_of_stops
    (ofLevel : ∀ operator, operator ∈ operators ↔ operator.level = level)
    (stops : Stops (·.any (Token.isOneOf operators)) cursor.rest) :
    (operator? level).run cursor = .ok (none, cursor) := by
  rw [operator?, funext (binds_eq ofLevel), run_bind, run_take?_of_stops stops]
  rfl

theorem run_operator?_of_fits {token : Token} {rest : List Token} {operator : Operator}
    (ofLevel : ∀ operator, operator ∈ operators ↔ operator.level = level)
    (next : cursor.rest = token :: rest) (fits : token.isOneOf operators = true)
    (found : Operator.ofSymbol? token.literal = some operator) :
    (operator? level).run cursor =
      .ok (some operator, { cursor with rest, lastEnd := token.stop }) := by
  rw [operator?, funext (binds_eq ofLevel), run_bind, run_take?_of_fits next fits, ← found]
  rfl

end

/-! ## Chains -/

theorem bare_foldSteps {steps : List Step} {links : List (Operator × Expr)}
    (agree : List.Forall₂ (fun step link => step.operator = link.1 ∧ step.right.bare = link.2)
      steps links) (first : Expr) :
    (foldSteps first steps).bare =
      links.foldl (fun left link => .binary .none link.1 left link.2) first.bare := by
  suffices general : ∀ (offset : Nat) (left : Expr),
      (steps.foldl (fun left step => .binary ⟨step.id, offset⟩ step.operator left step.right)
        left).bare =
        links.foldl (fun left link => .binary .none link.1 left link.2) left.bare from
    general first.node.offset first
  intro offset left
  induction agree generalizing left with
  | nil => rfl
  | cons same _ induction =>
      rw [List.foldl_cons, List.foldl_cons, induction, Expr.bare, same.1, same.2]

private theorem link_reads {level : Operator.Level} {operators : List Operator}
    {operand : Parser Expr} {form : Form Expr}
    (ofLevel : ∀ operator, operator ∈ operators ↔ operator.level = level)
    (reads : Reads limit operand form continues Expr.Agrees) :
    ReadsItem limit (do
      match ← operator? level with
      | none => return none
      | some operator =>
          let right ← operand
          return some (⟨operator, right, ← freshId⟩ : Step))
      (.pair (.oneOf operators) form) (Token.isOneOf operators) continues
      fun step link => step.operator = link.1 ∧ step.right.bare = link.2 := by
  intro cursor within
  rcases next_cases (Token.isOneOf operators) cursor.rest with stops | ⟨token, rest, next, fits⟩
  · refine .inl ⟨stops, ?_⟩
    rw [run_bind, run_operator?_of_stops ofLevel stops]
    rfl
  · rcases Token.exists_of_isOneOf fits with ⟨operator, member, found⟩
    have linked : Reads limit (do
        let token ← Parser.take "" (Token.isOneOf operators)
        let right ← operand
        let id ← freshId
        return some (⟨(Operator.ofSymbol? token.literal).getD .and, right, id⟩ : Step))
        (.pair (.oneOf operators) form) continues fun found link =>
          ∃ step, found = some step ∧ step.operator = link.1 ∧ step.right.bare = link.2 :=
      .token fun token fits => (reads.shorter (Nat.sub_le _ _)).numbered
        fun result id tree same => ⟨_, rfl, rfl, same⟩
    refine .inr ⟨not_stops_of_fits next fits, (linked cursor within).congr ?_⟩
    have spelled : operator = (Operator.ofSymbol? token.literal).getD .and := by
      rw [found]
      rfl
    rw [run_take_bind_of_fits _ next fits, run_bind,
      run_operator?_of_fits ofLevel next fits found, spelled]
    rfl

theorem Reads.chain {level : Operator.Level} {operators : List Operator}
    {operand : Parser Expr} {form : Form Expr}
    (ofLevel : ∀ operator, operator ∈ operators ↔ operator.level = level)
    (reads : Reads limit operand form continues Expr.Agrees)
    (nonempty : form.nullable = false)
    (apart : ∀ token, continues (some token) = true → token.isOneOf operators = false) :
    Reads limit (Parser.chain level operand) (.chain operators form)
      (fun next => next.any (Token.isOneOf operators) || continues next)
      Expr.Agrees := by
  have first : ∀ token, (Form.pair (.oneOf operators) form).first token =
      token.isOneOf operators := fun token => by
    simp [Token.isOneOf]
  have repeats : Repeats (.pair (.oneOf operators) form) (Token.isOneOf operators) continues :=
    ⟨rfl, fun token begins => (first token).symm.trans begins,
      fun token continuing => (first token).trans (apart token continuing)⟩
  refine reads.bind (fun result tree same => ?_) fun next continuing => ?_
  · rw [nonempty]
    have links := Reads.many repeats (link_reads ofLevel reads)
    apply (links.shorter (Nat.sub_le _ _)).last
    intro steps links agree
    rw [Expr.Agrees, bare_foldSteps agree, same]
  · refine ⟨fun token member => ?_, fun _ => by rw [continuing, Bool.or_true]⟩
    rw [Option.mem_def.mp member] at continuing
    exact repeats.apart token continuing

end Parser

end Plc
