import Plc.Proofs.Grammar.Operators

/-! Expressions are read as the grammar says. -/

namespace Plc.Parser

open Grammar

variable {limit : Nat} {continues : Option Token → Bool} {expression : Parser Expr}

abbrev ReadsExpressions (limit : Nat) (expression : Parser Expr) : Prop :=
  Reads limit expression (rules .expression) (·.any Token.continuesExpression) Expr.Agrees

/-! ## Names -/

theorem startsExpression_of_isSymbol {token : Token} {literal : String}
    (isSymbol : token.isSymbol literal = true) (other : literal ≠ "(") :
    startsExpression token = false := by
  rw [Token.isSymbol_iff] at isSymbol
  simp [startsExpression, isSymbol.1, isSymbol.2, other]

theorem Reads.expressions {close : String} {form : Form (List Expr)}
    (reads : Reads limit (do
      let first ← expression
      let others ← Parser.many do
        if ← skipSymbol "," then return some (← expression) else return none
      return first :: others) form
      (fun next => next.any (·.isSymbol ",") || next.any Token.continuesExpression)
      (List.Forall₂ Expr.Agrees))
    (nonempty : form.nullable = false) (first : form.first = startsExpression)
    (other : Operator.ofSymbol? close = none ∧ close ≠ "(" ∧ close ≠ "[") (comma : close ≠ ",") :
    Reads limit (Parser.separated close expression) (.orEmpty form)
      (fun next => !next.any (·.isSymbol close))
      (List.Forall₂ Expr.Agrees) := by
  refine Reads.unless close reads .nil nonempty (fun token closes => ⟨?_, ?_⟩) rfl
  · rw [first]
    exact startsExpression_of_isSymbol closes other.2.1
  · rw [Option.any_some, Option.any_some, Token.continuesExpression_of_isSymbol closes other]
    simp [Token.isSymbol, (Token.isSymbol_iff.mp closes).2, comma]

theorem not_comma_of_continues {token : Token} (continuing : token.continuesExpression = true) :
    token.isSymbol "," = false := by
  apply Bool.eq_false_iff.mpr
  intro comma
  rw [Token.continuesExpression_of_isSymbol comma (by decide)] at continuing
  cases continuing

theorem call_reads (reads : ReadsExpressions limit expression) (token : Token) :
    Reads limit (do
      let arguments ← Parser.separated ")" expression
      let _ ← symbol ")"
      let id ← freshId
      return Expr.call ⟨id, token.offset⟩ token.literal arguments)
      .call continues fun result select => result.bare = select token.literal := by
  have operand : Reads limit expression .expression _ Expr.Agrees := reads.rule
  have several := operand.separated rfl fun _ => not_comma_of_continues
  have arguments : Reads limit (Parser.separated ")" expression)
      (.orEmpty (.rule .arguments id)) (fun next => !next.any (·.isSymbol ")"))
      (List.Forall₂ Expr.Agrees) :=
    Reads.expressions several.rule rfl rfl (by decide) (by decide)
  refine arguments.bind (fun results trees agree => ?_) (apart_of_first rfl fun token first => ?_)
  · apply Reads.numbered (Reads.take _ _ _)
    intro _ id _ _
    rw [Expr.bare, Expr.bareAll_eq_map, map_eq_of_forall₂ agree]
  · simpa using first

theorem index_reads (reads : ReadsExpressions limit expression) (token : Token) :
    Reads limit (do
      if ← skipSymbol "]" then
        return Expr.access ⟨← freshId, token.offset⟩ token.literal
      else
        let index ← expression
        let _ ← symbol "]"
        return Expr.element ⟨← freshId, token.offset⟩ token.literal index)
      .index continues fun result select => result.bare = select token.literal := by
  have some : Reads limit (do return some (← expression)) (.rule .expression some)
      (·.any Token.continuesExpression) (Option.Rel Expr.Agrees) :=
    .rule (reads.last fun _ _ => .some)
  have optional := some.unless "]" .none rfl (fun token closes =>
    ⟨startsExpression_of_isSymbol closes (by decide),
      Token.continuesExpression_of_isSymbol closes (by decide)⟩) rfl
  have enclosed : Reads limit (do
      let index ← (do
        if ← nextIs (·.isSymbol "]") then return none else return .some (← expression))
      let _ ← symbol "]"
      let id ← freshId
      return index.elim (Expr.access ⟨id, token.offset⟩ token.literal)
        (Expr.element ⟨id, token.offset⟩ token.literal))
      .index continues fun result select => result.bare = select token.literal := by
    refine optional.bind (fun result tree agree => ?_) (apart_of_first rfl fun token first => ?_)
    · apply Reads.numbered (Reads.take _ _ _)
      intro _ id _ _
      cases agree with
      | none => rfl
      | some same => rw [← same]; rfl
    · simpa using first
  intro cursor within
  apply (enclosed cursor within).congr
  rcases next_cases (·.isSymbol "]") cursor.rest with stops | ⟨closing, rest, next, fits⟩
  · have stopped : cursor.rest.head?.any (·.isSymbol "]") = false := stops
    rw [bind_assoc, run_nextIs_bind, stopped, if_neg Bool.false_ne_true, bind_assoc]
    exact run_skip_of_stops _ stops
  · apply (run_skip_of_fits _ next fits).trans
    rw [bind_assoc, run_nextIs_bind, next, List.head?_cons, Option.any_some, fits]
    simp only [if_true, pure_bind]
    rw [symbol, run_take_bind_of_fits _ next fits]
    rfl

theorem afterName_reads (reads : ReadsExpressions limit expression) (token : Token) :
    Reads limit (afterName expression token) .selection (·.any Token.selects)
      fun result select => result.bare = select token.literal := by
  have shorter := reads.shorter (Nat.sub_le limit 1)
  refine Reads.skip rfl (call_reads shorter token) (Reads.skip rfl (index_reads shorter token)
    (Reads.freshId fun id => .pure rfl) ?_) ?_
  · intro token opens
    refine .of_token rfl fun _ => ?_
    simp [Token.selects, opens]
  · intro token opens
    rw [Token.isSymbol_iff] at opens
    refine .of_token ?_ fun _ => ?_
    · simp [Token.isSymbol, opens]
    · simp [Token.selects, Token.isSymbol, opens]

/-! ## Primary expressions -/

section

variable {cursor : Cursor} {token : Token} {rest : List Token}

theorem constant_readsAt {literal : String} {value : Literal} (within : cursor.Within limit)
    (next : cursor.rest = token :: rest) (isWord : token.isWord literal = true)
    (spells : Literal.ofWord? literal = some value) :
    (primary expression).ReadsAt cursor (.constant literal value) continues Expr.Agrees := by
  have reads : Reads limit (do
      let token ← Parser.take "" (·.isWord literal)
      let id ← freshId
      return Expr.literal ⟨id, token.offset⟩ value) (.constant literal value) continues
      Expr.Agrees := by
    apply Reads.numbered (Reads.take _ _ _)
    intro token id tree agrees
    rw [← agrees.2]
    rfl
  apply (reads cursor within).congr
  have ⟨kind, spelled⟩ := Token.isWord_iff.mp isWord
  have starts : startsExpression token = true := by simp [startsExpression, kind]
  rw [primary, run_take_bind_of_fits _ next starts, run_take_bind_of_fits _ next isWord, kind,
    spelled, spells]

theorem literal_readsAt (within : cursor.Within limit) (next : cursor.rest = token :: rest)
    (identifier : token.kind ≠ .identifier) (operator : token.kind ≠ .operator) :
    (primary expression).ReadsAt cursor .literal continues Expr.Agrees := by
  have reads : Reads limit (do
      let token ← Parser.take "" fun token => token.kind != .identifier && token.kind != .operator
      let id ← freshId
      return Expr.literal ⟨id, token.offset⟩ ((Literal.ofToken? token).getD .nil)) .literal
      continues Expr.Agrees := by
    apply Reads.numbered (Reads.take _ _ _)
    intro token id tree agrees
    rw [← agrees.2]
    rfl
  apply (reads cursor within).congr
  have starts : startsExpression token = true := by simp [startsExpression, operator]
  have fits : (token.kind != .identifier && token.kind != .operator) = true := by
    simp [identifier, operator]
  have spelled := within.spelled token (by rw [next]; exact List.mem_cons_self) identifier operator
  rcases Option.isSome_iff_exists.mp spelled with ⟨value, spells⟩
  rw [primary, run_take_bind_of_fits _ next starts, run_take_bind_of_fits _ next fits]
  cases kind : token.kind with
  | identifier => exact absurd kind identifier
  | operator => exact absurd kind operator
  | _ => simp only [spells, Option.getD_some]

theorem group_readsAt (reads : ReadsExpressions limit expression)
    (within : cursor.Within (limit + 1)) (next : cursor.rest = token :: rest)
    (opens : token.isSymbol "(" = true) :
    (primary expression).ReadsAt cursor
      (.skip (.symbol "(") (.sequence .expression (.symbol ")") fun inner _ => .group .none inner))
      continues Expr.Agrees := by
  have inner : Reads limit expression .expression _ Expr.Agrees := reads.rule
  have grouped : Reads (limit + 1) (do
      let token ← Parser.take "" (·.isSymbol "(")
      let inner ← expression
      let _ ← symbol ")"
      let id ← freshId
      return Expr.group ⟨id, token.offset⟩ inner)
      (.skip (.symbol "(") (.sequence .expression (.symbol ")") fun inner _ => .group .none inner))
      continues Expr.Agrees := by
    refine Reads.token fun token _ => inner.bind (fun result tree same => ?_) ?_
    · apply Reads.numbered (Reads.take _ _ _)
      intro _ id _ _
      rw [← same]
      rfl
    · apply apart_of_first rfl
      intro token first
      exact Token.continuesExpression_of_isSymbol first (by decide)
  apply (grouped cursor within).congr
  have ⟨kind, spelled⟩ := Token.isSymbol_iff.mp opens
  have starts : startsExpression token = true := by simp [startsExpression, spelled]
  rw [primary, run_take_bind_of_fits _ next starts, run_take_bind_of_fits _ next opens, kind]

theorem variable_readsAt (reads : ReadsExpressions limit expression)
    (within : cursor.Within (limit + 1)) (next : cursor.rest = token :: rest)
    (identifier : token.kind = .identifier) (spells : Literal.ofWord? token.literal = none) :
    (primary expression).ReadsAt cursor
      (.sequence .variableName .selection fun name select => select name)
      (·.any Token.selects) Expr.Agrees := by
  have named : Reads (limit + 1) (do
      let token ← Parser.take "" fun token => token.kind == .identifier &&
        !(["NIL", "TRUE", "FALSE"].contains token.literal)
      afterName expression token)
      (.sequence .variableName .selection fun name select => select name)
      (·.any Token.selects) Expr.Agrees :=
    Reads.token fun token _ => afterName_reads reads token
  apply (named cursor within).congr
  have starts : startsExpression token = true := by simp [startsExpression, identifier]
  have fits : (token.kind == .identifier &&
      !(["NIL", "TRUE", "FALSE"].contains token.literal)) = true := by
    rw [identifier]
    unfold Literal.ofWord? at spells
    split at spells <;> simp_all
  rw [primary, run_take_bind_of_fits _ next starts, run_take_bind_of_fits _ next fits, identifier,
    spells]

end

theorem primary_reads (reads : ReadsExpressions limit expression) :
    Reads (limit + 1) (primary expression) (rules .primary) (·.any Token.selects)
      Expr.Agrees := by
  intro cursor within
  rcases next_cases startsExpression cursor.rest with stops | ⟨token, rest, next, fits⟩
  · rcases run_take_of_stops "an expression" stops with ⟨error, failed⟩
    unfold ReadsAt
    rw [primary, run_bind, failed]
    refine absent_of_stops rfl (stops.mono fun next first => ?_)
    cases next with
    | none => cases first
    | some token => exact rules_first .primary token first
  · -- the token tells which alternative comes, and no other one begins with it
    by_cases identifier : token.kind = .identifier
    · cases spells : Literal.ofWord? token.literal with
      | none =>
          refine .right (.right (.right (.right (.right
            (variable_readsAt reads within next identifier spells) ?_) ?_) ?_) ?_) ?_
          all_goals
            apply absent_of_first next rfl
            unfold Literal.ofWord? at spells
            split at spells <;>
              simp_all [Token.isWord, Token.isSymbol]
      | some value =>
          unfold Literal.ofWord? at spells
          split at spells
          · rename_i spelled
            cases spells
            have isWord := Token.isWord_iff.mpr ⟨identifier, spelled⟩
            refine .left (constant_readsAt within next isWord rfl) (absent_of_first next rfl ?_)
            simp [Token.isWord, Token.isSymbol, identifier, spelled]
          · rename_i spelled
            cases spells
            have isWord := Token.isWord_iff.mpr ⟨identifier, spelled⟩
            refine .right (.left (constant_readsAt within next isWord rfl) ?_) ?_
            all_goals
              apply absent_of_first next rfl
              simp [Token.isWord, Token.isSymbol, identifier, spelled]
          · rename_i spelled
            cases spells
            have isWord := Token.isWord_iff.mpr ⟨identifier, spelled⟩
            refine .right (.right (.left (constant_readsAt within next isWord rfl) ?_) ?_) ?_
            all_goals
              apply absent_of_first next rfl
              simp [Token.isWord, Token.isSymbol, identifier, spelled]
          · cases spells
    · by_cases operator : token.kind = .operator
      · have opens : token.isSymbol "(" = true := by
          simpa [startsExpression, Token.isSymbol, operator] using fits
        refine .right (.right (.right (.right (.left
          (group_readsAt reads within next opens) ?_) ?_) ?_) ?_) ?_
        all_goals
          apply absent_of_first next rfl
          simp [Token.isWord, operator]
      · refine .right (.right (.right (.left
          (literal_readsAt within next identifier operator) ?_) ?_) ?_) ?_
        all_goals
          apply absent_of_first next rfl
          simp [Token.isWord, Token.isSymbol, identifier, operator]

/-! ## Levels -/

theorem Reads.level (level : Operator.Level) {operators tighter : List Operator}
    {operand : Parser Expr} {form : Form Expr}
    (reads : Reads limit operand form (·.any (Token.continues tighter)) Expr.Agrees)
    (nonempty : form.nullable = false)
    (ofLevel : Operator.all.filter (·.level == level) = operators)
    (disjoint : ∀ operator ∈ tighter, operator ∉ operators) :
    Reads limit (Parser.chain level operand) (.chain operators form)
      (·.any (Token.continues (operators ++ tighter))) Expr.Agrees := by
  refine (reads.chain (Operator.mem_iff_of_level ofLevel) nonempty fun token continuing =>
    Token.isOneOf_of_continues continuing disjoint).mono (Nat.le_refl _) (fun next continuing => ?_)
    fun _ _ => id
  cases next with
  | none => exact continuing
  | some token =>
      simpa [Token.continues, Token.isOneOf, Bool.or_assoc] using continuing

theorem levels_reads (reads : ReadsExpressions limit expression) :
    ReadsExpressions (limit + 1) (levels expression) := by
  have primary : Reads (limit + 1) _ (.rule .primary id) (·.any (Token.continues [])) Expr.Agrees :=
    (primary_reads reads).rule
  have factor : Reads (limit + 1) _ (.rule .factor id) _ Expr.Agrees :=
    (primary.level .factor rfl rfl (by decide)).rule
  have term : Reads (limit + 1) _ (.rule .term id) _ Expr.Agrees :=
    (factor.level .term rfl rfl (by decide)).rule
  have comparison : Reads (limit + 1) _ (.rule .comparison id) _ Expr.Agrees :=
    (term.level .comparison rfl rfl (by decide)).rule
  have logical : Reads (limit + 1) _ (.rule .logical id) _ Expr.Agrees :=
    (comparison.level .logical rfl rfl (by decide)).rule
  exact logical

theorem expressionUpTo_reads (depth : Nat) :
    ReadsExpressions depth (expressionUpTo depth) := by
  induction depth with
  | zero =>
      intro cursor within
      have empty := within.rest_eq_nil
      have failed : ∃ error, (expressionUpTo 0).run cursor = .error error := by
        show ∃ error, Parser.fail "an expression" cursor = .error error
        rw [Parser.fail, empty]
        exact ⟨_, rfl⟩
      rcases failed with ⟨error, failed⟩
      unfold ReadsAt
      rw [failed]
      exact absent_of_stops rfl (by rw [empty]; rfl)
  | succ depth induction => exact levels_reads induction

theorem expression_reads (limit : Nat) :
    ReadsExpressions limit Parser.expression := by
  intro cursor within
  exact (expressionUpTo_reads cursor.rest.length cursor ⟨Nat.le_refl _, within.spelled⟩).congr rfl

end Plc.Parser
