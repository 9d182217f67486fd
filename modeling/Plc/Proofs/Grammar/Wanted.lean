import Plc.Parser.Program

/-! What the grammar asks for where tokens do not fit: one of a few symbols and keywords, or a name
for what may stand there. -/

namespace Plc

def GrammarError.requirements : List String :=
  ["an expression", "an identifier", "(", ")", "[", "]", "=", ":", ";", "DO", "END", "DEFAULT"]

def GrammarError.Cause.wanted? : GrammarError.Cause → Option String
  | .expected wanted _ => some wanted
  | _ => none

namespace Parser

/-- What the parser asks for where it fails is one of the requirements. -/
def Asks (parser : Parser α) : Prop :=
  ∀ cursor error, parser cursor = .error error →
    ∀ wanted ∈ error.cause.wanted?, wanted ∈ GrammarError.requirements

namespace Asks

variable {parser : Parser α}

theorem of_ok (succeeds : ∀ cursor, ∃ pair, parser cursor = .ok pair) : Asks parser := by
  intro cursor error failed
  rcases succeeds cursor with ⟨pair, ran⟩
  rw [ran] at failed
  cases failed

theorem pure (value : α) : Asks (pure value) :=
  .of_ok fun _ => ⟨_, rfl⟩

theorem bind {next : α → Parser β} (first : Asks parser) (second : ∀ value, Asks (next value)) :
    Asks (parser >>= next) := by
  intro cursor error failed
  have opened : (parser >>= next) cursor =
      (parser cursor).bind fun pair => next pair.1 pair.2 := rfl
  rw [opened] at failed
  cases ran : parser cursor with
  | error found =>
      rw [ran] at failed
      cases failed
      exact first cursor error ran
  | ok pair =>
      rw [ran] at failed
      exact second pair.1 pair.2 error failed

theorem map (asks : Asks parser) (transform : α → β) : Asks (transform <$> parser) := by
  rw [map_eq_pure_bind]
  exact asks.bind fun _ => pure _

theorem ite {condition : Prop} [Decidable condition] {other : Parser α} (whenTrue : Asks parser)
    (whenFalse : Asks other) : Asks (if condition then parser else other) := by
  split
  · exact whenTrue
  · exact whenFalse

theorem get : Asks (get : Parser Cursor) :=
  .of_ok fun _ => ⟨_, rfl⟩

theorem freshId : Asks freshId :=
  .of_ok fun _ => ⟨_, rfl⟩

theorem nextIs (property : Token → Bool) : Asks (nextIs property) :=
  .of_ok fun _ => ⟨_, rfl⟩

theorem take? (property : Token → Bool) : Asks (take? property) := by
  apply of_ok
  intro cursor
  unfold Parser.take?
  split
  · exact ⟨_, rfl⟩
  · split <;> exact ⟨_, rfl⟩

theorem fail {wanted : String} (required : wanted ∈ GrammarError.requirements) :
    Asks (fail wanted : Parser α) := by
  intro cursor error failed asked asks
  unfold Parser.fail at failed
  split at failed
  all_goals
    cases failed
    cases asks
    exact required

theorem throw {error : GrammarError} (other : error.cause.wanted? = none) :
    Asks (throw error : Parser α) := by
  intro cursor failure failed wanted asks
  cases failed
  rw [other] at asks
  cases asks

theorem take {wanted : String} (required : wanted ∈ GrammarError.requirements)
    (property : Token → Bool) : Asks (take wanted property) := by
  apply (take? property).bind
  intro found
  cases found with
  | some token => exact pure token
  | none => exact fail required

theorem symbol {literal : String} (required : literal ∈ GrammarError.requirements) :
    Asks (symbol literal) :=
  take required _

theorem word {literal : String} (required : literal ∈ GrammarError.requirements) :
    Asks (word literal) :=
  take required _

theorem skipSymbol (literal : String) : Asks (skipSymbol literal) :=
  (take? _).bind fun _ => pure _

theorem skipWord (literal : String) : Asks (skipWord literal) :=
  (take? _).bind fun _ => pure _

theorem name : Asks name :=
  (take (by decide) _).bind fun _ => pure _

theorem after? (literal : String) (item : Asks parser) : Asks (after? literal parser) :=
  (skipSymbol literal).bind fun _ => ite (item.bind fun _ => pure _) (pure none)

theorem typeName? : Asks typeName? :=
  after? ":" name

theorem many {item? : Parser (Option α)} (item : Asks item?) : Asks (many item?) := by
  have upTo : ∀ count, Asks (manyUpTo item? count) := by
    intro count
    induction count with
    | zero => exact pure []
    | succ count induction =>
        apply item.bind
        intro found
        cases found with
        | none => exact pure []
        | some first => exact induction.bind fun _ => pure _
  exact get.bind fun cursor => upTo cursor.rest.length

theorem separated (close : String) (item : Asks parser) : Asks (separated close parser) := by
  have others : Asks (Parser.many do
      if ← Parser.skipSymbol "," then return some (← parser) else return none) :=
    many ((skipSymbol ",").bind fun _ => ite (item.bind fun _ => pure _) (pure none))
  exact (nextIs _).bind fun _ => ite (pure []) (item.bind fun _ => others.bind fun _ => pure _)

end Asks

/-! ## Expressions -/

theorem operator?_asks (level : Operator.Level) : Asks (operator? level) := by
  apply (Asks.take? _).bind
  intro found
  cases found <;> exact .pure _

theorem chain_asks (level : Operator.Level) {operand : Parser Expr} (asks : Asks operand) :
    Asks (chain level operand) := by
  refine asks.bind fun first => Asks.bind (.many ?_) fun _ => .pure _
  apply (operator?_asks level).bind
  intro found
  cases found with
  | none => exact .pure none
  | some operator => exact asks.bind fun _ => Asks.freshId.bind fun _ => .pure _

section

variable {expression : Parser Expr}

theorem afterName_asks (asks : Asks expression) (token : Token) :
    Asks (afterName expression token) := by
  have arguments : Asks (separated ")" expression) := asks.separated ")"
  apply (Asks.skipSymbol "(").bind
  intro _
  apply Asks.ite
  · exact arguments.bind fun _ => (Asks.symbol (by decide)).bind fun _ =>
      Asks.freshId.bind fun _ => .pure _
  · apply (Asks.skipSymbol "[").bind
    intro _
    apply Asks.ite
    · apply (Asks.skipSymbol "]").bind
      intro _
      apply Asks.ite
      · exact Asks.freshId.bind fun _ => .pure _
      · exact asks.bind fun _ => (Asks.symbol (by decide)).bind fun _ =>
          Asks.freshId.bind fun _ => .pure _
    · exact Asks.freshId.bind fun _ => .pure _

theorem primary_asks (asks : Asks expression) : Asks (primary expression) := by
  apply (Asks.take (by decide) _).bind
  intro token
  split
  · exact asks.bind fun _ => (Asks.symbol (by decide)).bind fun _ =>
      Asks.freshId.bind fun _ => .pure _
  · split
    · exact Asks.freshId.bind fun _ => .pure _
    · exact afterName_asks asks token
  · split
    · exact Asks.freshId.bind fun _ => .pure _
    · exact .throw rfl

end

theorem expressionUpTo_asks (depth : Nat) : Asks (expressionUpTo depth) := by
  induction depth with
  | zero => exact .fail (by decide)
  | succ depth induction =>
      exact chain_asks _ (chain_asks _ (chain_asks _ (chain_asks _ (primary_asks induction))))

theorem expression_asks : Asks expression :=
  Asks.get.bind fun _ => expressionUpTo_asks _

theorem value?_asks : Asks (after? "=" expression) :=
  expression_asks.after? "="

/-! ## Statements -/

theorem declaration_asks : Asks declaration :=
  Asks.freshId.bind fun _ => Asks.name.bind fun _ => Asks.typeName?.bind fun _ =>
    value?_asks.bind fun _ => (Asks.symbol (by decide)).bind fun _ => .pure _

theorem returns_asks : Asks returns :=
  expression_asks.bind fun _ => (Asks.symbol (by decide)).bind fun _ => .pure _

theorem simple_asks : Asks simple := by
  refine expression_asks.bind fun first => value?_asks.bind fun value? =>
    (Asks.symbol (by decide)).bind fun _ => ?_
  cases value? <;> exact .pure _

section

variable {block : Parser (List Stmt)}

theorem conditional_asks (asks : Asks block) : Asks (conditional block) := by
  have finish (condition : Expr) (whenTrue whenFalse : List Stmt) : Asks (do
      let _ ← word "END"
      return Stmt.conditional condition whenTrue whenFalse) :=
    (Asks.word (by decide)).bind fun _ => .pure _
  refine expression_asks.bind fun condition => (Asks.word (by decide)).bind fun _ =>
    asks.bind fun whenTrue => (Asks.skipWord "ELSE").bind fun _ => ?_
  apply Asks.ite
  · exact asks.bind fun whenFalse => finish condition whenTrue whenFalse
  · exact finish condition whenTrue []

theorem case?_asks (asks : Asks block) : Asks (case? block) :=
  (Asks.skipWord "CASE").bind fun _ => .ite
    (expression_asks.bind fun _ => (Asks.symbol (by decide)).bind fun _ =>
      asks.bind fun _ => .pure _)
    (.pure none)

theorem switch_asks (asks : Asks block) : Asks (switch block) :=
  expression_asks.bind fun _ => (case?_asks asks).many.bind fun _ =>
    (Asks.word (by decide)).bind fun _ => (Asks.skipSymbol ":").bind fun _ =>
      asks.bind fun _ => (Asks.word (by decide)).bind fun _ => .pure _

theorem loop_asks (asks : Asks block) : Asks (loop block) :=
  expression_asks.bind fun _ => (Asks.word (by decide)).bind fun _ =>
    asks.bind fun _ => (Asks.word (by decide)).bind fun _ => .pure _

theorem statement_asks (asks : Asks block) : Asks (statement block) :=
  (Asks.skipWord "LET").bind fun _ => .ite declaration_asks <|
    (Asks.skipWord "IF").bind fun _ => .ite (conditional_asks asks) <|
      (Asks.skipWord "SWITCH").bind fun _ => .ite (switch_asks asks) <|
        (Asks.skipWord "WHILE").bind fun _ => .ite (loop_asks asks) <|
          (Asks.skipWord "RETURN").bind fun _ => .ite returns_asks simple_asks

theorem statement?_asks (asks : Asks block) : Asks (statement? block) :=
  (Asks.nextIs _).bind fun _ => .ite ((statement_asks asks).bind fun _ => .pure _) (.pure none)

end

theorem blockUpTo_asks (depth : Nat) : Asks (blockUpTo depth) := by
  induction depth with
  | zero => exact .pure []
  | succ depth induction => exact (statement?_asks induction).many

theorem block_asks : Asks block :=
  Asks.get.bind fun _ => blockUpTo_asks _

/-! ## Declarations -/

theorem listLiteral_asks : Asks listLiteral :=
  (Asks.symbol (by decide)).bind fun _ => (expression_asks.separated "]").bind fun _ =>
    (Asks.symbol (by decide)).bind fun _ => Asks.freshId.bind fun _ => .pure _

theorem global?_asks : Asks global? := by
  apply (Asks.take? _).bind
  intro found
  cases found with
  | none => exact .pure none
  | some keyword =>
      have finish (id : Nat) (name : String) (typeName : Option String) (value : Option Expr) :
          Asks (do
            let _ ← symbol ";"
            return some (Global.mk id name typeName (keyword.literal != "VAL") value)) :=
        (Asks.symbol (by decide)).bind fun _ => .pure _
      refine Asks.freshId.bind fun id => Asks.name.bind fun name =>
        Asks.typeName?.bind fun typeName => ?_
      dsimp only
      split
      · exact value?_asks.bind (finish id name typeName)
      · apply (Asks.symbol (by decide)).bind
        intro _
        split
        · exact (listLiteral_asks.map some).bind (finish id name typeName)
        · exact (expression_asks.map some).bind (finish id name typeName)

theorem parameter_asks : Asks parameter :=
  Asks.name.bind fun _ => Asks.typeName?.bind fun _ => .pure _

theorem procedure?_asks : Asks procedure? :=
  (Asks.skipWord "FUN").bind fun _ => .ite
    (Asks.freshId.bind fun _ => Asks.name.bind fun _ => (Asks.symbol (by decide)).bind fun _ =>
      (parameter_asks.separated ")").bind fun _ => (Asks.symbol (by decide)).bind fun _ =>
        Asks.typeName?.bind fun _ => (Asks.word (by decide)).bind fun _ =>
          block_asks.bind fun _ => (Asks.word (by decide)).bind fun _ => .pure _)
    (.pure none)

theorem endOfText_asks : Asks endOfText := by
  intro cursor error failed wanted asks
  unfold endOfText at failed
  split at failed
  · cases failed
  · cases failed
    cases asks

theorem program_asks : Asks program :=
  global?_asks.many.bind fun _ => procedure?_asks.many.bind fun _ =>
    endOfText_asks.bind fun _ => .pure _

end Parser

/-- What is asked for where tokens are not a program is one of the requirements. -/
theorem Program.wanted_mem_requirements {tokens : List Token} {error : GrammarError}
    (failed : Program.ofTokens tokens = .error error) :
    ∀ wanted ∈ error.cause.wanted?, wanted ∈ GrammarError.requirements := by
  change Prod.fst <$> Parser.program ⟨tokens, 0, 1⟩ = .error error at failed
  cases ran : Parser.program ⟨tokens, 0, 1⟩ with
  | error other =>
      rw [ran] at failed
      cases failed
      exact Parser.program_asks _ _ ran
  | ok pair =>
      rw [ran] at failed
      cases failed

end Plc
