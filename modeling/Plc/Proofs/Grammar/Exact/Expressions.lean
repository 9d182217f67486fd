import Plc.Proofs.Grammar.Exact.Choices
import Plc.Proofs.Grammar.Expressions

/-! Expressions end where they should. The parsers that are bounded in depth are twins of
each other: they differ only in how many tokens they can read. -/

namespace Plc.Parser

open Grammar

variable {ι : Type} {limit : Nat} {bound : ι → Nat} {expression : Parser Expr}
  {expressions : ι → Parser Expr}

/-! ## Chains -/

section

variable {level : Operator.Level} {operators : List Operator} {operand : Parser Expr}
  {operands : ι → Parser Expr} {form : Form Expr}

private theorem link_exact (ofLevel : ∀ operator, operator ∈ operators ↔ operator.level = level)
    (holds : Exact limit operand form bound operands) :
    ExactItem limit (do
      match ← operator? level with
      | none => return none
      | some operator =>
          let right ← operand
          return some (⟨operator, right, ← freshId⟩ : Step))
      (.pair (.oneOf operators) form) (Token.isOneOf operators) bound fun index => (do
      match ← operator? level with
      | none => return none
      | some operator =>
          let right ← operands index
          return some ⟨operator, right, ← freshId⟩) := by
  refine ⟨fun cursor stops => ?_, fun index cursor stops => ?_, fun cursor within enters => ?_⟩
  · rw [run_bind, run_operator?_of_stops ofLevel stops]
    rfl
  · rw [run_bind, run_operator?_of_stops ofLevel stops]
    rfl
  rcases next_cases (Token.isOneOf operators) cursor.rest with stops | ⟨token, rest, next, fits⟩
  · exact absurd stops enters
  rcases Token.exists_of_isOneOf fits with ⟨operator, _, found⟩
  refine .token within next fits (holds.pred.numbered fun right id => some ⟨operator, right, id⟩)
    ?_ fun index rest => ?_
  · rw [run_bind, run_operator?_of_fits ofLevel next fits found]
    rfl
  · rw [run_bind, run_operator?_of_fits ofLevel rfl fits found]
    rfl

theorem Exact.chain (level : Operator.Level)
    (ofLevel : Operator.all.filter (·.level == level) = operators)
    (holds : Exact limit operand form bound operands) :
    Exact limit (Parser.chain level operand) (.chain operators form) bound fun index =>
      Parser.chain level (operands index) := by
  have links := Exact.many (link_exact (Operator.mem_iff_of_level ofLevel) holds) rfl
  exact holds.bind (fun first => links.last (foldSteps first)) (Form.viable_many ..)

end

/-! ## Names -/

abbrev ExactExpressions (limit : Nat) (expression : Parser Expr) (bound : ι → Nat)
    (expressions : ι → Parser Expr) : Prop :=
  Exact limit expression (rules .expression) bound expressions

def callFrom (token : Token) (expression : Parser Expr) : Parser Expr := do
  let arguments ← Parser.separated ")" expression
  let _ ← symbol ")"
  return .call ⟨← freshId, token.offset⟩ token.literal arguments

def indexFrom (token : Token) (expression : Parser Expr) : Parser Expr := do
  if ← skipSymbol "]" then
    return .access ⟨← freshId, token.offset⟩ token.literal
  else
    let index ← expression
    let _ ← symbol "]"
    return .element ⟨← freshId, token.offset⟩ token.literal index

theorem callFrom_exact (token : Token)
    (holds : ExactExpressions limit expression bound expressions) :
    Exact limit (callFrom token expression) .call bound fun index =>
      callFrom token (expressions index) := by
  have operand : Exact limit expression .expression bound expressions := holds.rule
  have arguments : Exact limit (Parser.separated ")" expression)
      (.orEmpty (.rule .arguments id)) bound fun index =>
        Parser.separated ")" (expressions index) :=
    (operand.separated ")").orEmpty fun phrase => ⟨.rule phrase, rfl⟩
  exact arguments.bind (fun arguments => (Exact.symbol ")").numbered _) (by simp)

theorem indexFrom_exact (token : Token)
    (holds : ExactExpressions limit expression bound expressions) :
    Exact limit (indexFrom token expression) .index bound fun index =>
      indexFrom token (expressions index) := by
  have index : Exact limit expression (.rule .expression some) bound expressions := holds.rule
  have read : Exact limit (indexFrom token expression)
      (.choice (.skip (.symbol "]") (.nothing none))
        (.before (.rule .expression some) (.symbol "]"))) bound fun index =>
      indexFrom token (expressions index) :=
    .skip rfl (.freshId fun _ => .pure _ _)
      (index.bind (fun index => (Exact.symbol "]").numbered _) (by simp))
  -- the parser looks for the bracket first, where the grammar has it after a missing index
  refine read.widen fun phrase => ?_
  rcases phrase.choice_cases with ⟨inner, rfl⟩ | ⟨inner, rfl⟩
  · rcases inner.sequence_cases with ⟨close, nothing, rfl⟩
    refine ⟨.sequence (.right ⟨[], .nothing⟩) close, ?_⟩
    rw [nothing.nothing_cases]
    exact (List.append_nil _).symm
  · rcases inner.sequence_cases with ⟨value, close, rfl⟩
    exact ⟨.sequence (.left value) close, rfl⟩

theorem afterName_exact (token : Token)
    (holds : ExactExpressions limit expression bound expressions) :
    Exact limit (afterName expression token) .selection bound fun index =>
      afterName (expressions index) token :=
  .skip rfl (callFrom_exact token holds.pred) (.skip rfl (indexFrom_exact token holds.pred)
    (.freshId fun _ => .pure _ _))

/-! ## Primary expressions -/

section

variable {cursor : Cursor} {token : Token} {rest : List Token} {value : Literal}

theorem kind_ne_operator_of_value (spells : Literal.ofToken? token = some value) :
    token.kind ≠ .operator := by
  intro operator
  rw [Literal.ofToken?, operator] at spells
  cases spells

theorem run_primary_of_stops (stops : Stops (·.any startsExpression) cursor.rest) :
    (primary expression).run cursor =
      .error (.unexpected "an expression" cursor.lastEnd cursor.rest.head?) := by
  rw [primary, run_bind, run_take_of_absent _ stops]
  rfl

theorem run_primary_of_value (next : cursor.rest = token :: rest)
    (spells : Literal.ofToken? token = some value) :
    (primary expression).run cursor = .ok (.literal ⟨cursor.nextId, token.offset⟩ value,
      ⟨rest, token.stop, cursor.nextId + 1⟩) := by
  have notOperator := kind_ne_operator_of_value spells
  have starts : startsExpression token = true := by simp [startsExpression, notOperator]
  rw [primary, run_take_bind_of_fits _ next starts]
  cases kind : token.kind with
  | operator => exact absurd kind notOperator
  | identifier =>
      have word : Literal.ofWord? token.literal = some value := by
        rw [← spells, Literal.ofToken?, kind]
      simp only [word]
      rfl
  | _ =>
      simp only [spells]
      rfl

theorem run_primary_of_group (next : cursor.rest = token :: rest)
    (opens : token.isSymbol "(" = true) :
    (primary expression).run cursor = (do
      let inner ← expression
      let _ ← symbol ")"
      return Expr.group ⟨← freshId, token.offset⟩ inner).run
        { cursor with rest, lastEnd := token.stop } := by
  have ⟨kind, spelled⟩ := Token.isSymbol_iff.mp opens
  have starts : startsExpression token = true := by simp [startsExpression, spelled]
  rw [primary, run_take_bind_of_fits _ next starts, kind]

theorem run_primary_of_name (next : cursor.rest = token :: rest)
    (identifier : token.kind = .identifier) (spells : Literal.ofWord? token.literal = none) :
    (primary expression).run cursor =
      (afterName expression token).run { cursor with rest, lastEnd := token.stop } := by
  have starts : startsExpression token = true := by simp [startsExpression, identifier]
  rw [primary, run_take_bind_of_fits _ next starts, identifier, spells]

theorem exists_primary_of_value (spells : Literal.ofToken? token = some value) :
    ∃ phrase : Phrase (rules .primary), phrase.tokens = [token] := by
  by_cases identifier : token.kind = .identifier
  · have word : Literal.ofWord? token.literal = some value := by
      rw [← spells, Literal.ofToken?, identifier]
    unfold Literal.ofWord? at word
    split at word
    · rename_i spelled
      exact ⟨.left ⟨[token], .terminal token (Token.isWord_iff.mpr ⟨identifier, spelled⟩)⟩, rfl⟩
    · rename_i spelled
      exact ⟨.right (.left ⟨[token], .terminal token
        (Token.isWord_iff.mpr ⟨identifier, spelled⟩)⟩), rfl⟩
    · rename_i spelled
      exact ⟨.right (.right (.left ⟨[token], .terminal token
        (Token.isWord_iff.mpr ⟨identifier, spelled⟩)⟩)), rfl⟩
    · cases word
  · have operator := kind_ne_operator_of_value spells
    refine ⟨.right (.right (.right (.left ⟨[token], .terminal token ?_⟩))), rfl⟩
    simp [identifier, operator]

theorem value_exactAt (next : cursor.rest = token :: rest)
    (spells : Literal.ofToken? token = some value) :
    (primary expression).ExactAt cursor (rules .primary) bound fun index =>
      primary (expressions index) := by
  have single : (primary expression).ExactAt cursor (.terminal (· == token) id) bound
      fun index => primary (expressions index) :=
    .single _ _ next (beq_self_eq_true token) (run_primary_of_value next spells)
      fun _ _ => run_primary_of_value rfl spells
  refine single.widen fun phrase => ?_
  rcases phrase.terminal_cases with ⟨same, fits, rfl⟩
  rw [beq_iff_eq] at fits
  subst fits
  exact exists_primary_of_value spells

theorem variable_exactAt (holds : ExactExpressions limit expression bound expressions)
    (within : cursor.Within (limit + 1)) (next : cursor.rest = token :: rest)
    (identifier : token.kind = .identifier) (spells : Literal.ofWord? token.literal = none) :
    (primary expression).ExactAt cursor (rules .primary) (fun index => bound index + 1)
      fun index => primary (expressions index) := by
  have fits : (token.kind == .identifier &&
      !(["NIL", "TRUE", "FALSE"].contains token.literal)) = true := by
    rw [identifier]
    unfold Literal.ofWord? at spells
    split at spells <;> simp_all
  have named : (primary expression).ExactAt cursor
      (.sequence .variableName .selection fun name select => select name)
      (fun index => bound index + 1) fun index => primary (expressions index) :=
    .token within next fits (afterName_exact token holds)
      (run_primary_of_name next identifier spells)
      fun _ _ => run_primary_of_name rfl identifier spells
  exact named.right.right.right.right.right

theorem group_exactAt (holds : ExactExpressions limit expression bound expressions)
    (within : cursor.Within (limit + 1)) (next : cursor.rest = token :: rest)
    (opens : token.isSymbol "(" = true) :
    (primary expression).ExactAt cursor (rules .primary) (fun index => bound index + 1)
      fun index => primary (expressions index) := by
  have inner : Exact limit expression .expression bound expressions := holds.rule
  have grouped : (primary expression).ExactAt cursor
      (.skip (.symbol "(") (.sequence .expression (.symbol ")")
        fun inner _ => Expr.group .none inner)) (fun index => bound index + 1)
      fun index => primary (expressions index) :=
    .token within next opens
      (inner.bind (fun _ => (Exact.symbol ")").numbered _) (by simp))
      (run_primary_of_group next opens) fun _ _ => run_primary_of_group rfl opens
  exact grouped.left.right.right.right.right

end

theorem primary_exact (holds : ExactExpressions limit expression bound expressions) :
    Exact (limit + 1) (primary expression) (rules .primary) (fun index => bound index + 1)
      fun index => primary (expressions index) := by
  intro cursor within
  rcases next_cases startsExpression cursor.rest with stops | ⟨token, rest, next, starts⟩
  · exact .fails (rules_viable .primary) (run_primary_of_stops stops) fun _ _ same =>
      run_primary_of_stops (stops.of_head? same)
  cases spells : Literal.ofToken? token with
  | some value => exact value_exactAt next spells
  | none =>
      by_cases identifier : token.kind = .identifier
      · have word : Literal.ofWord? token.literal = none := by
          rw [← spells, Literal.ofToken?, identifier]
        exact variable_exactAt holds within next identifier word
      · -- a number, a character or a string would have a value
        have spelled := within.spelled token (by rw [next]; exact List.mem_cons_self) identifier
        have operator : token.kind = .operator := by
          by_contra other
          have found := spelled other
          rw [spells] at found
          cases found
        have opens : token.isSymbol "(" = true := by
          simpa [startsExpression, Token.isSymbol, operator] using starts
        exact group_exactAt holds within next opens

/-! ## Levels -/

theorem levels_exact (holds : ExactExpressions limit expression bound expressions) :
    ExactExpressions (limit + 1) (levels expression) (fun index => bound index + 1)
      fun index => levels (expressions index) := by
  have primary : Exact (limit + 1) _ (.rule .primary id) _ _ := (primary_exact holds).rule
  have factor : Exact (limit + 1) _ (.rule .factor id) _ _ := (primary.chain .factor rfl).rule
  have term : Exact (limit + 1) _ (.rule .term id) _ _ := (factor.chain .term rfl).rule
  have comparison : Exact (limit + 1) _ (.rule .comparison id) _ _ :=
    (term.chain .comparison rfl).rule
  have logical : Exact (limit + 1) _ (.rule .logical id) _ _ :=
    (comparison.chain .logical rfl).rule
  exact logical

theorem run_chain_of_error {level : Operator.Level} {operand : Parser Expr} {cursor : Cursor}
    {error : GrammarError} (failed : operand.run cursor = .error error) :
    (Parser.chain level operand).run cursor = .error error := by
  rw [Parser.chain, run_bind, failed]
  rfl

theorem run_expressionUpTo_of_nil (depth : Nat) {cursor : Cursor} (empty : cursor.rest = []) :
    (expressionUpTo depth).run cursor =
      .error (.unexpected "an expression" cursor.lastEnd cursor.rest.head?) := by
  cases depth with
  | zero =>
      show Parser.fail "an expression" cursor = _
      rw [Parser.fail, empty]
      rfl
  | succ depth =>
      have stops : Stops (·.any startsExpression) cursor.rest := by
        rw [empty]
        rfl
      exact run_chain_of_error (run_chain_of_error (run_chain_of_error (run_chain_of_error
        (run_primary_of_stops stops))))

theorem expressionUpTo_exact (depth : Nat) :
    ExactExpressions depth (expressionUpTo depth) id expressionUpTo := by
  refine exact_upTo (fun depth cursor empty => ?_) (fun cursor within => ?_)
    (fun depth => levels_exact) depth
  · rw [run_expressionUpTo_of_nil depth empty, run_expressionUpTo_of_nil 0 empty]
  · have empty := within.rest_eq_nil
    refine .fails (rules_viable .expression) (run_expressionUpTo_of_nil 0 empty)
      fun depth rest same => run_expressionUpTo_of_nil depth ?_
    rw [empty] at same
    exact List.head?_eq_none_iff.mp same

theorem expression_exact :
    ExactExpressions limit Parser.expression bound fun _ => Parser.expression :=
  .ofUpTo expressionUpTo_exact fun _ => rfl

end Plc.Parser
