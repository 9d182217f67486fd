import Plc.Proofs.Grammar.Program
import Plc.Proofs.Grammar.Spells

/-! A program has the offsets of the tokens it was read from: the tokens are one of its
spellings. -/

namespace Plc

open Spelling

namespace Parser

/-! ## Operators -/

theorem operator?_spells (level : Operator.Level) (given : Language Token) :
    Spells given (fun found => found.elim given fun operator =>
      given * Spelling.symbol operator.symbol) (operator? level) := by
  apply Spells.take?_bind
  · intro token fits
    rw [Bool.and_eq_true, beq_iff_eq, Option.any_eq_true] at fits
    rcases fits with ⟨kind, operator, found, _⟩
    have isSymbol : token.isSymbol operator.symbol = true :=
      Token.isSymbol_iff.mpr ⟨kind, (Operator.ofSymbol?_eq_some.mp found).symm⟩
    apply Spells.pure
    rw [found]
    exact mul_le_mul_right (one_le_one isSymbol) given
  · exact .pure le_rfl

def Step.spellings (step : Step) : Language Token :=
  Spelling.symbol step.operator.symbol * step.right.spellings

theorem spellings_foldSteps (first : Expr) (steps : List Step) :
    first.spellings * (steps.map Step.spellings).prod ≤ (foldSteps first steps).spellings := by
  suffices general : ∀ (offset : Nat) (left : Expr), left.node.offset = offset →
      left.spellings * (steps.map Step.spellings).prod ≤
        (steps.foldl (fun left step => .binary ⟨step.id, offset⟩ step.operator left step.right)
          left).spellings from
    general first.node.offset first rfl
  intro offset left starts
  induction steps generalizing left with
  | nil => exact (mul_one left.spellings).le
  | cons step rest induction =>
      have grouped : left.spellings * Spelling.symbol step.operator.symbol * step.right.spellings ≤
          (Expr.binary ⟨step.id, offset⟩ step.operator left step.right).spellings := by
        have begins := (left.starts.mul (Spelling.symbol step.operator.symbol)).mul step.right.spellings
        rw [starts] at begins
        exact begins.le_startingAt le_rfl
      calc left.spellings * ((step :: rest).map Step.spellings).prod
          = left.spellings * Spelling.symbol step.operator.symbol * step.right.spellings *
              (rest.map Step.spellings).prod := by
            rw [List.map_cons, List.prod_cons, Step.spellings]
            simp only [mul_assoc]
        _ ≤ _ := mul_le_mul_left grouped _
        _ ≤ _ := induction _ rfl

theorem step_spells (level : Operator.Level) {operand : Parser Expr}
    (spells : Spells 1 Expr.spellings operand) :
    Spells 1 (fun step => step.elim 1 Step.spellings) (do
      match ← operator? level with
      | none => return none
      | some operator =>
          let right ← operand
          return some ⟨operator, right, ← freshId⟩) := by
  apply (operator?_spells level 1).bind
  intro found
  cases found with
  | none => exact .pure le_rfl
  | some operator =>
      apply (spells.beside _).bind
      intro right
      refine (Spells.freshId _).bind fun id => .pure ?_
      exact mul_le_mul_left (one_mul _).le _

theorem chain_spells (level : Operator.Level) {operand : Parser Expr}
    (spells : Spells 1 Expr.spellings operand) : Spells 1 Expr.spellings (chain level operand) := by
  apply spells.bind
  intro first
  have steps := (Spells.many (step_spells level spells)).beside first.spellings
  exact steps.bind fun steps => .pure (spellings_foldSteps first steps)

/-! ## Expressions -/

theorem completed_spells {given : Language Token} {make : Nat → Expr}
    (made : ∀ id, given ≤ (make id).spellings) :
    Spells given Expr.spellings (do return make (← freshId)) :=
  (Spells.freshId given).bind fun id => .pure (made id)

section

variable {expression : Parser Expr}

theorem afterName_spells (spells : Spells 1 Expr.spellings expression) {token : Token}
    (kind : token.kind = .identifier) (other : Literal.ofWord? token.literal = none) :
    Spells (one (· = token)) Expr.spellings (afterName expression token) := by
  have named : one (· = token) ≤ variableName token.literal :=
    one_le_one ⟨kind, rfl, other⟩
  have begins := starts_one token
  apply Spells.skip
  · apply ((Spells.separated ")" spells).beside _).bind
    intro arguments
    apply (Spells.symbol ")" _).bind
    intro _
    refine completed_spells fun id => ?_
    rw [Expr.spellings, Expr.spellingsOfEach_eq_map]
    exact ((begins.mul _).mul _ |>.mul _).le_startingAt (by gcongr)
  · apply Spells.skip
    · apply Spells.skip
      · refine completed_spells fun id => ?_
        apply ((begins.mul _).mul _).le_startingAt
        rw [mul_assoc]
        exact mul_le_mul' named le_add_self
      · apply (spells.beside _).bind
        intro index
        apply (Spells.symbol "]" _).bind
        intro _
        refine completed_spells fun id => ?_
        exact ((begins.mul _).mul _ |>.mul _).le_startingAt (by gcongr)
    · refine completed_spells fun id => begins.le_startingAt ?_
      calc one (· = token) = one (· = token) * 1 := (mul_one _).symm
        _ ≤ variableName token.literal * (1 + Spelling.symbol "[" * Spelling.symbol "]") :=
          mul_le_mul' named le_self_add

theorem primary_spells (spells : Spells 1 Expr.spellings expression) :
    Spells 1 Expr.spellings (primary expression) := by
  apply Spells.take_bind
  intro token starts
  rw [one_mul]
  have begins := starts_one token
  have valued : ∀ {value id}, Literal.ofToken? token = some value →
      one (· = token) ≤ (Expr.literal ⟨id, token.offset⟩ value).spellings := fun spelled =>
    begins.le_startingAt (one_le_one spelled)
  split
  · rename_i kind
    have opens : token.isSymbol "(" = true := by
      simpa [startsExpression, Token.isSymbol, kind] using starts
    have opening : one (· = token) ≤ Spelling.symbol "(" := one_le_one opens
    apply (spells.beside _).bind
    intro inner
    apply (Spells.symbol ")" _).bind
    intro _
    refine completed_spells fun id => ?_
    exact ((begins.mul _).mul _).le_startingAt (by gcongr)
  · rename_i kind
    split
    · rename_i value spelled
      refine completed_spells fun id => valued ?_
      rw [Literal.ofToken?, kind]
      exact spelled
    · rename_i spelled
      exact afterName_spells spells kind spelled
  · split
    · rename_i spelled
      exact completed_spells fun id => valued spelled
    · exact .throw _

end

theorem expressionUpTo_spells (depth : Nat) : Spells 1 Expr.spellings (expressionUpTo depth) := by
  induction depth with
  | zero => exact .fail _
  | succ depth induction =>
      exact chain_spells _ (chain_spells _ (chain_spells _ (chain_spells _
        (primary_spells induction))))

theorem expression_spells : Spells 1 Expr.spellings expression :=
  (Spells.get 1).bind fun _ => expressionUpTo_spells _

theorem value?_spells (given : Language Token) :
    Spells given (fun value => given * Expr.spellingsOf? value) (after? "=" expression) :=
  .after? "=" expression_spells given

/-! ## Statements -/

theorem declaration_spells :
    Spells (Spelling.word "LET") Stmt.spellings declaration := by
  apply (Spells.freshId _).bind
  intro id
  apply (Spells.name _).bind
  intro name
  apply (Spells.typeName? _).bind
  intro typeName
  apply (value?_spells _).bind
  intro value
  exact (Spells.symbol ";" _).bind fun _ => .pure le_rfl

theorem returns_spells : Spells (Spelling.word "RETURN") Stmt.spellings returns := by
  apply (expression_spells.beside _).bind
  intro value
  exact (Spells.symbol ";" _).bind fun _ => .pure le_rfl

theorem simple_spells : Spells 1 Stmt.spellings simple := by
  apply expression_spells.bind
  intro first
  apply (value?_spells _).bind
  intro value
  apply (Spells.symbol ";" _).bind
  intro _
  cases value with
  | none => exact .pure (mul_le_mul_left (mul_one _).le _)
  | some value => exact .pure (mul_le_mul_left (mul_assoc _ _ _).ge _)

section

variable {block : Parser (List Stmt)}

theorem conditional_spells (spells : Spells 1 Stmt.spellingsOfAll block) :
    Spells (Spelling.word "IF") Stmt.spellings (conditional block) := by
  apply (expression_spells.beside _).bind
  intro condition
  apply (Spells.word "DO" _).bind
  intro _
  apply (spells.beside _).bind
  intro whenTrue
  let front := Spelling.word "IF" * condition.spellings * Spelling.word "DO" *
    Stmt.spellingsOfAll whenTrue
  have finish : ∀ whenFalse, Spells
      (front * otherwise whenFalse.isEmpty (Stmt.spellingsOfAll whenFalse)) Stmt.spellings (do
        let _ ← word "END"
        return .conditional condition whenTrue whenFalse) := fun whenFalse =>
    (Spells.word "END" _).bind fun _ => .pure le_rfl
  apply Spells.skip
  · apply (spells.beside _).bind
    intro whenFalse
    apply (finish whenFalse).lower
    rw [mul_assoc]
    exact mul_le_mul_right le_self_add front
  · apply (finish []).lower
    calc front = front * 1 := (mul_one front).symm
      _ ≤ _ := mul_le_mul_right le_add_self front

theorem case?_spells (spells : Spells 1 Stmt.spellingsOfAll block) :
    Spells 1 (fun found => found.elim 1 Case.spellings) (case? block) := by
  apply Spells.skip
  · rw [one_mul]
    apply (expression_spells.beside _).bind
    intro value
    apply (Spells.symbol ":" _).bind
    intro _
    apply (spells.beside _).bind
    intro body
    exact .pure le_rfl
  · exact .pure le_rfl

theorem switch_spells (spells : Spells 1 Stmt.spellingsOfAll block) :
    Spells (Spelling.word "SWITCH") Stmt.spellings (switch block) := by
  apply (expression_spells.beside _).bind
  intro condition
  apply ((Spells.many (case?_spells spells)).beside _).bind
  intro cases
  apply (Spells.word "DEFAULT" _).bind
  intro _
  apply (Spells.skipped ":" _).bind
  intro _
  apply (spells.beside _).bind
  intro default
  apply (Spells.word "END" _).bind
  intro _
  apply Spells.pure
  rw [Stmt.spellings, Case.spellingsOfAll_eq_prod, List.map_append, List.prod_append]
  simp only [List.map_cons, List.map_nil, List.prod_singleton, Case.spellings, mul_assoc]
  exact le_rfl

theorem loop_spells (spells : Spells 1 Stmt.spellingsOfAll block) :
    Spells (Spelling.word "WHILE") Stmt.spellings (loop block) := by
  apply (expression_spells.beside _).bind
  intro condition
  apply (Spells.word "DO" _).bind
  intro _
  apply (spells.beside _).bind
  intro body
  exact (Spells.word "END" _).bind fun _ => .pure le_rfl

theorem statement_spells (spells : Spells 1 Stmt.spellingsOfAll block) :
    Spells 1 Stmt.spellings (statement block) := by
  have keyword : ∀ {literal : String} {parser : Parser Stmt},
      Spells (Spelling.word literal) Stmt.spellings parser →
        Spells (1 * Spelling.word literal) Stmt.spellings parser :=
    fun spells => spells.lower (one_mul _).le
  exact .skip (keyword declaration_spells) <| .skip (keyword (conditional_spells spells)) <|
    .skip (keyword (switch_spells spells)) <| .skip (keyword (loop_spells spells)) <|
      .skip (keyword returns_spells) simple_spells

theorem statement?_spells (spells : Spells 1 Stmt.spellingsOfAll block) :
    Spells 1 (fun found => found.elim 1 Stmt.spellings) (statement? block) := by
  apply (Spells.nextIs _ 1).bind
  intro _
  apply Spells.ite
  · exact (statement_spells spells).bind fun _ => .pure le_rfl
  · exact .pure le_rfl

end

theorem blockUpTo_spells (depth : Nat) : Spells 1 Stmt.spellingsOfAll (blockUpTo depth) := by
  induction depth with
  | zero => exact .pure le_rfl
  | succ depth induction =>
      rw [funext Stmt.spellingsOfAll_eq_prod]
      exact Spells.many (statement?_spells induction)

theorem block_spells : Spells 1 Stmt.spellingsOfAll block :=
  (Spells.get 1).bind fun _ => blockUpTo_spells _

/-! ## Declarations -/

theorem listLiteral_spells : Spells 1 Expr.spellings listLiteral := by
  apply Spells.take_bind
  intro opening opens
  rw [one_mul]
  apply ((Spells.separated "]" expression_spells).beside _).bind
  intro elements
  apply (Spells.symbol "]" _).bind
  intro _
  refine completed_spells fun id => ?_
  rw [Expr.spellings, Expr.spellingsOfEach_eq_map]
  have begins := starts_one opening
  have opening : one (· = opening) ≤ Spelling.symbol "[" := one_le_one opens
  exact ((begins.mul _).mul _).le_startingAt (by gcongr)

theorem le_keywords {keyword : Token} (declares : (keyword.isWord "LIST" ||
      keyword.isWord "VAR" || keyword.isWord "VAL") = true) (declaration : Global)
    (isMutable : declaration.isMutable = (keyword.literal != "VAL")) :
    one (· = keyword) ≤ declaration.keywords := by
  rw [Bool.or_eq_true, Bool.or_eq_true] at declares
  rw [Global.keywords, isMutable]
  rcases declares with (isList | isVar) | isVal
  · rw [(Token.isWord_iff.mp isList).2]
    exact (one_le_one isList).trans le_self_add
  · rw [(Token.isWord_iff.mp isVar).2]
    exact (one_le_one isVar).trans le_add_self
  · rw [(Token.isWord_iff.mp isVal).2]
    exact one_le_one isVal

theorem global?_spells : Spells 1 (fun found => found.elim 1 Global.spellings) global? := by
  apply Spells.take?_bind
  · intro keyword declares
    rw [one_mul]
    apply (Spells.freshId _).bind
    intro id
    apply (Spells.name _).bind
    intro name
    apply (Spells.typeName? _).bind
    intro typeName
    let front := one (· = keyword) * identifier name * typed typeName
    have finish : ∀ value, Spells (front * Expr.spellingsOf? value)
        (fun found => found.elim 1 Global.spellings) (do
          let _ ← symbol ";"
          return some ⟨id, name, typeName, keyword.literal != "VAL", value⟩) := by
      intro value
      refine (Spells.symbol ";" _).bind fun _ => .pure ?_
      have begins := le_keywords declares ⟨id, name, typeName, _, value⟩ rfl
      exact mul_le_mul_left (mul_le_mul_left (mul_le_mul_left (mul_le_mul_left begins _) _) _) _
    have finishSome : ∀ {parser : Parser Expr}, Spells 1 Expr.spellings parser →
        Spells (front * Spelling.symbol "=") (fun value => front * Expr.spellingsOf? value)
          (some <$> parser) := by
      intro parser spells
      rw [map_eq_pure_bind]
      exact (spells.beside _).bind fun _ => .pure (mul_assoc _ _ _).le
    dsimp only
    split
    · exact (value?_spells _).bind finish
    · apply (Spells.symbol "=" _).bind
      intro _
      split
      · exact (finishSome listLiteral_spells).bind finish
      · exact (finishSome expression_spells).bind finish
  · exact .pure le_rfl

theorem parameter_spells : Spells 1 Parameter.spellings parameter := by
  apply (Spells.name 1).bind
  intro name
  apply (Spells.typeName? _).bind
  intro typeName
  apply Spells.pure
  rw [one_mul]
  exact le_rfl

theorem procedure?_spells :
    Spells 1 (fun found => found.elim 1 Procedure.spellings) procedure? := by
  apply Spells.skip
  · rw [one_mul]
    apply (Spells.freshId _).bind
    intro id
    apply (Spells.name _).bind
    intro name
    apply (Spells.symbol "(" _).bind
    intro _
    apply ((Spells.separated ")" parameter_spells).beside _).bind
    intro parameters
    apply (Spells.symbol ")" _).bind
    intro _
    apply (Spells.typeName? _).bind
    intro typeName
    apply (Spells.word "DO" _).bind
    intro _
    apply (block_spells.beside _).bind
    intro body
    exact (Spells.word "END" _).bind fun _ => .pure le_rfl
  · exact .pure le_rfl

theorem declarations_spells : Spells 1 Program.spellings declarations := by
  apply (Spells.many global?_spells).bind
  intro globals
  apply ((Spells.many procedure?_spells).beside _).bind
  intro procedures
  exact .pure le_rfl

end Parser

/-- The tokens of a program spell it with the offsets of its expressions. -/
theorem Program.mem_spellings {tokens : List Token} {program : Program}
    (parsed : Program.ofTokens tokens = .ok program) : tokens ∈ program.spellings := by
  cases ran : Parser.declarations.run ⟨tokens, 0, 1⟩ with
  | error error =>
      rw [Program.ofTokens_of_error ran] at parsed
      cases parsed
  | ok pair =>
      rcases pair with ⟨result, after⟩
      rcases Parser.declarations_spells _ _ _ ran with ⟨read, consumed, spelled⟩
      rw [Program.ofTokens_of_ok ran] at parsed
      cases ended : after.rest with
      | cons token rest =>
          rw [ended] at parsed
          cases parsed
      | nil =>
          rw [ended] at parsed
          cases parsed
          have all : tokens = read := by
            rw [ended, List.append_nil] at consumed
            exact consumed
          rw [all]
          exact spelled [] Language.nil_mem_one

end Plc
