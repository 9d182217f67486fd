import Plc.Proofs.Grammar.Expressions

/-! Statements and blocks are read as the grammar says. -/

namespace Plc.Parser

open Grammar

variable {limit : Nat} {continues : Option Token → Bool}

/-! ## Parts of statements -/

theorem name_reads : Reads limit Parser.name .name (fun _ => false) Eq :=
  (Reads.take _ _ _).last fun _ _ agrees => agrees.2

theorem typeName?_reads :
    Reads limit typeName? .typeName (·.any (·.isSymbol ":")) (Option.Rel Eq) :=
  (name_reads.after?).mono (Nat.le_refl _) (by simp) fun _ _ => id

theorem value_reads :
    Reads limit Parser.expression .expression (·.any Token.continuesExpression) Expr.Agrees :=
  (expression_reads limit).rule

theorem value?_reads :
    Reads limit (after? "=" Parser.expression) (.after "=" .expression)
      (fun next => next.any (·.isSymbol "=") || next.any Token.continuesExpression)
      (Option.Rel Expr.Agrees) :=
  value_reads.after?

theorem apart_of_symbol {form : Form α} {others : Option Token → Bool} (literal : String)
    (nonempty : form.nullable = false)
    (first : ∀ token, form.first token = true → token.isSymbol literal = true)
    (other : Operator.ofSymbol? literal = none ∧ literal ≠ "(" ∧ literal ≠ "[") :
    ∀ next, next.any Token.continuesExpression = true → form.Avoids others next :=
  apart_of_first nonempty fun token begins =>
    Token.continuesExpression_of_isSymbol (first token begins) other

theorem apart_of_word {form : Form α} {others : Option Token → Bool} (literal : String)
    (nonempty : form.nullable = false)
    (first : ∀ token, form.first token = true → token.isWord literal = true) :
    ∀ next, next.any Token.continuesExpression = true → form.Avoids others next :=
  apart_of_first nonempty fun token begins =>
    Token.continuesExpression_of_isWord (first token begins)

theorem stops_of_semicolon {token : Token} (semicolon : token.isSymbol ";" = true) :
    ((some token).any (·.isSymbol "=") || (some token).any Token.continuesExpression) = false := by
  have stops := Token.continuesExpression_of_isSymbol semicolon (by decide)
  rw [Option.any_some, Option.any_some, Token.isSymbol_eq_false semicolon (by decide), stops]
  rfl

theorem apart_of_semicolon {others : Option Token → Bool} :
    ∀ next, (next.any (·.isSymbol "=") || next.any Token.continuesExpression) = true →
      (Form.symbol ";").Avoids others next :=
  apart_of_first rfl fun _ => stops_of_semicolon

theorem first_of_value? {token : Token}
    (first : (Form.before (.after "=" .expression) (.symbol ";")).first token = true) :
    token.isSymbol "=" = true ∨ token.isSymbol ";" = true := by
  simpa using first

/-! ## Simple statements -/

theorem declaration_reads :
    Reads limit Parser.declaration .declaration continues Stmt.Agrees := by
  refine Reads.freshId fun id => name_reads.bind (fun name _ same => ?_) (by simp)
  refine typeName?_reads.bind (fun typeName _ typed => ?_) ?_
  · refine value?_reads.bind (fun value _ agrees => ?_) apart_of_semicolon
    apply (Reads.take _ _ _).last
    intro _ _ _
    rw [Stmt.Agrees, Stmt.bare, same, eq_of_rel typed, map_eq_of_rel agrees]
  · apply apart_of_first rfl
    intro token first
    rcases first_of_value? first with equals | semicolon
    · exact Token.isSymbol_eq_false equals (by decide)
    · exact Token.isSymbol_eq_false semicolon (by decide)

theorem returns_reads : Reads limit Parser.returns .returns continues Stmt.Agrees := by
  refine value_reads.bind (fun value _ same => ?_) (apart_of_symbol ";" rfl (by simp) (by decide))
  apply (Reads.take _ _ _).last
  intro _ _ _
  rw [Stmt.Agrees, Stmt.bare, same]

theorem simple_reads : Reads limit Parser.simple .simple continues Stmt.Agrees := by
  refine value_reads.bind (fun first _ same => ?_) ?_
  · refine value?_reads.bind (fun value _ agrees => ?_) apart_of_semicolon
    cases agrees with
    | none =>
        apply (Reads.take _ _ _).last
        intro _ _ _
        rw [Stmt.Agrees, Stmt.bare, same]
    | some agrees =>
        apply (Reads.take _ _ _).last
        intro _ _ _
        rw [Stmt.Agrees, Stmt.bare, same, agrees]
  · apply apart_of_first rfl
    intro token first
    rcases first_of_value? first with equals | semicolon
    · exact Token.continuesExpression_of_isSymbol equals (by decide)
    · exact Token.continuesExpression_of_isSymbol semicolon (by decide)

/-! ## Statements with blocks -/

section

variable {block : Parser (List Stmt)}

def continuesBlock (next : Option Token) : Bool :=
  next.any (!endsBlock ·)

theorem continuesBlock_of_isWord {token : Token} {literal : String}
    (isWord : token.isWord literal = true)
    (ends : literal ∈ ["END", "ELSE", "CASE", "DEFAULT"]) :
    continuesBlock (some token) = false := by
  rw [Token.isWord_iff] at isWord
  simp only [List.mem_cons, List.not_mem_nil, or_false] at ends
  rcases ends with rfl | rfl | rfl | rfl <;>
    simp [continuesBlock, endsBlock, Token.isWord, isWord]

theorem apart_of_end {form : Form α} {others : Option Token → Bool} (literal : String)
    (nonempty : form.nullable = false)
    (first : ∀ token, form.first token = true → token.isWord literal = true)
    (ends : literal ∈ ["END", "ELSE", "CASE", "DEFAULT"]) :
    ∀ next, continuesBlock next = true → form.Avoids others next :=
  apart_of_first nonempty fun token begins =>
    continuesBlock_of_isWord (first token begins) ends

abbrev ReadsBlocks (limit : Nat) (block : Parser (List Stmt)) : Prop :=
  Reads limit block (rules .block) continuesBlock (List.Forall₂ Stmt.Agrees)

/-- The block is read from shorter inputs as well. -/
theorem block_reads (reads : ReadsBlocks limit block) {smaller : Nat} (le : smaller ≤ limit) :
    Reads smaller block .block continuesBlock fun result tree => Stmt.bareAll result = tree :=
  .rule (reads.mono le (fun _ => id) fun result tree agree => by
    rw [Stmt.bareAll_eq_map, map_eq_of_forall₂ agree]
    rfl)

theorem loop_reads (reads : ReadsBlocks limit block) :
    Reads limit (Parser.loop block) .loop continues Stmt.Agrees := by
  refine value_reads.bind (fun condition _ same => ?_) (apart_of_word "DO" rfl (by simp))
  apply Reads.token
  intro _ _
  refine (block_reads reads (by simp; omega)).bind (fun body _ sameBody => ?_)
    (apart_of_end "END" rfl (by simp) (by decide))
  apply (Reads.take _ _ _).last
  intro _ _ _
  rw [Stmt.Agrees, Stmt.bare, same, sameBody]

theorem conditional_eq (block : Parser (List Stmt)) : Parser.conditional block = (do
    let condition ← Parser.expression
    let _ ← word "DO"
    let whenTrue ← block
    let whenFalse ← (do if ← skipWord "ELSE" then block else return [])
    let _ ← word "END"
    return .conditional condition whenTrue whenFalse) := by
  unfold Parser.conditional
  simp only [bind_assoc]
  refine bind_congr fun condition => bind_congr fun _ => bind_congr fun whenTrue =>
    bind_congr fun found => ?_
  cases found <;> rfl

theorem conditional_reads (reads : ReadsBlocks limit block) :
    Reads limit (Parser.conditional block) .conditional continues Stmt.Agrees := by
  have whenFalse : ∀ smaller ≤ limit, Reads smaller
      (do if ← skipWord "ELSE" then block else return [])
      (.orEmpty (.skip (.word "ELSE") .block))
      (fun next => continuesBlock next || next.any (·.isWord "ELSE"))
      fun result tree => Stmt.bareAll result = tree := by
    intro smaller le
    have shorter := block_reads reads (Nat.le_trans (Nat.sub_le _ 1) le)
    refine Reads.skip rfl (shorter.mono (Nat.le_refl _) (fun next continuing => ?_) fun _ _ => id)
      (Reads.pure rfl) fun token isElse => .of_token rfl fun _ => ?_
    · rw [continuing, Bool.true_or]
    · rw [Option.any_some, isElse, Bool.or_true]
  rw [conditional_eq]
  refine value_reads.bind (fun condition _ same => ?_) (apart_of_word "DO" rfl (by simp))
  apply Reads.token
  intro _ _
  refine (block_reads reads (by simp; omega)).bind (fun body _ sameTrue => ?_) ?_
  · refine (whenFalse _ (by simp; omega)).bind (fun other _ sameFalse => ?_) ?_
    · apply (Reads.take _ _ _).last
      intro _ _ _
      rw [Stmt.Agrees, Stmt.bare, same, sameTrue, sameFalse]
    · apply apart_of_first rfl
      intro token first
      rw [continuesBlock_of_isWord first (by decide)]
      exact Token.isWord_eq_false first (by decide)
  · apply apart_of_first rfl
    intro token first
    have ends : token.isWord "ELSE" = true ∨ token.isWord "END" = true := by simpa using first
    rcases ends with ends | ends
    · exact continuesBlock_of_isWord ends (by decide)
    · exact continuesBlock_of_isWord ends (by decide)

theorem case?_reads (reads : ReadsBlocks limit block) :
    ReadsItem limit (case? block) .case (·.isWord "CASE") continuesBlock Case.Agrees := by
  apply ReadsItem.skip rfl
  refine value_reads.bind (fun value _ same => ?_) (apart_of_symbol ":" rfl (by simp) (by decide))
  apply Reads.token
  intro _ _
  refine (block_reads reads (by simp; omega)).last fun body _ sameBody => ⟨_, rfl, ?_⟩
  rw [Case.Agrees, Case.bare, Option.map_some, same, sameBody]

theorem case_repeats : Repeats Form.case (·.isWord "CASE") continuesBlock := by
  refine ⟨rfl, fun token first => by simpa [Form.case] using first, fun token continuing => ?_⟩
  apply Bool.eq_false_iff.mpr
  intro first
  have isCase : token.isWord "CASE" = true := by simpa [Form.case] using first
  rw [continuesBlock_of_isWord isCase (by decide)] at continuing
  cases continuing

theorem switch_reads (reads : ReadsBlocks limit block) :
    Reads limit (Parser.switch block) .switch continues Stmt.Agrees := by
  have cases := Reads.many case_repeats (case?_reads reads)
  refine value_reads.bind (fun condition _ same => ?_) ?_
  · refine (cases.shorter (by simp)).bind (fun cases _ agree => ?_) ?_
    · refine Reads.token fun _ _ => (Reads.optional rfl).bind (fun _ _ _ => ?_) ?_
      · refine (block_reads reads (by simp; omega)).bind (fun default _ sameDefault => ?_)
          (apart_of_end "END" rfl (by simp) (by decide))
        apply (Reads.take _ _ _).last
        intro _ _ _
        rw [Stmt.Agrees, Stmt.bare, same, Case.bareAll_eq_map, List.map_append,
          map_eq_of_forall₂ agree, List.map_singleton, Case.bare, sameDefault]
        rfl
      · apply apart_of_first rfl
        intro token first
        apply Bool.eq_false_iff.mpr
        intro colon
        have starts : startsExpression token = false :=
          startsExpression_of_isSymbol colon (by decide)
        have kind := (Token.isSymbol_iff.mp colon).1
        simp [Rule.first, starts, Token.isWord, kind] at first
    · apply apart_of_first rfl
      intro token first
      have isDefault : token.isWord "DEFAULT" = true := by simpa using first
      rw [continuesBlock_of_isWord isDefault (by decide), Option.any_some,
        Token.isWord_eq_false isDefault (by decide)]
      rfl
  · apply apart_of_first rfl
    intro token first
    have begins : token.isWord "CASE" = true ∨ token.isWord "DEFAULT" = true := by
      simpa [Form.case] using first
    rcases begins with begins | begins
    · exact Token.continuesExpression_of_isWord begins
    · exact Token.continuesExpression_of_isWord begins

/-! ## Statements -/

/-- A token at which no other statement begins and no block ends begins a simple one. -/
theorem not_keyword_of_stops {tokens : List Token} (goesOn : Stops (·.any endsBlock) tokens)
    (notLet : Stops (·.any (·.isWord "LET")) tokens) (notIf : Stops (·.any (·.isWord "IF")) tokens)
    (notSwitch : Stops (·.any (·.isWord "SWITCH")) tokens)
    (notWhile : Stops (·.any (·.isWord "WHILE")) tokens)
    (notReturn : Stops (·.any (·.isWord "RETURN")) tokens) :
    ∀ token ∈ tokens.head?, (!keywords.any token.isWord) = true := by
  intro token next
  rw [Stops, Option.mem_def.mp next, Option.any_some] at goesOn
  rw [Stops, Option.mem_def.mp next, Option.any_some] at notLet notIf notSwitch
  rw [Stops, Option.mem_def.mp next, Option.any_some] at notWhile notReturn
  simp only [endsBlock, Bool.or_eq_false_iff] at goesOn
  simp [keywords, goesOn, notLet, notIf, notSwitch, notWhile, notReturn]

/-- Which statement comes is decided by its first token. The block does not end there. -/
theorem statement_readsAt {cursor : Cursor} (within : cursor.Within (limit + 1))
    (goesOn : Stops (·.any endsBlock) cursor.rest) (reads : ReadsBlocks limit block) :
    (Parser.statement block).ReadsAt cursor (rules .statement) continues Stmt.Agrees := by
  refine .skip within rfl declaration_reads (fun notLet => .skip within rfl
    (conditional_reads reads) (fun notIf => .skip within rfl
    (switch_reads reads) (fun notSwitch => .skip within rfl
    (loop_reads reads) (fun notWhile => .skip within rfl
    returns_reads (fun notReturn => ?_) ?_) ?_) ?_) ?_) ?_
  · exact .guarded rfl (simple_reads cursor within)
      (not_keyword_of_stops goesOn notLet notIf notSwitch notWhile notReturn)
  -- none of the statements that are left begins with the keyword
  all_goals
    intro token isWord
    rw [Token.isWord_iff] at isWord
    refine .of_nonempty rfl fun other member => ?_
    cases member
    simp [Token.isWord, keywords, isWord]

theorem statement?_reads (reads : ReadsBlocks limit block) :
    ReadsItem (limit + 1) (statement? block) (.rule .statement id) (!endsBlock ·) (fun _ => false)
      Stmt.Agrees := by
  intro cursor within
  cases goesOn : cursor.rest.head?.any (!endsBlock ·) with
  | false =>
      refine .inl ⟨goesOn, ?_⟩
      rw [statement?, run_nextIs_bind, goesOn]
      rfl
  | true =>
      refine .inr ⟨fun stops => ?_, ?_⟩
      · rw [Stops, goesOn] at stops
        cases stops
      · have opened : Stops (·.any endsBlock) cursor.rest := by
          cases next : cursor.rest.head? with
          | none => rw [Stops, next]; rfl
          | some token =>
              rw [next, Option.any_some, Bool.not_eq_true'] at goesOn
              rw [Stops, next]
              exact goesOn
        have found : (do return some (← Parser.statement block)).ReadsAt cursor
            (rules .statement) (fun _ => false)
            fun found tree => ∃ result : Stmt, found = some result ∧ result.Agrees tree :=
          (statement_readsAt within opened reads).last fun result tree agrees =>
            ⟨result, rfl, agrees⟩
        apply found.rule.congr
        rw [statement?, run_nextIs_bind, goesOn]
        rfl

end

/-! ## Blocks -/

theorem statement_repeats :
    Repeats (Form.rule .statement id) (!endsBlock ·) (fun _ => false) := by
  refine ⟨rfl, fun token first => ?_, fun _ impossible => by cases impossible⟩
  rw [Form.first, Rule.first, Bool.and_eq_true] at first
  exact first.2

theorem blockUpTo_reads (depth : Nat) :
    ReadsBlocks depth (blockUpTo depth) := by
  induction depth with
  | zero =>
      intro cursor within
      have stops : Stops (·.any (!endsBlock ·)) cursor.rest := by
        rw [within.rest_eq_nil]
        rfl
      have done : (blockUpTo 0).ReadsAt cursor (rules .block) _ (List.Forall₂ Stmt.Agrees) :=
        .done statement_repeats stops rfl
      refine done.mono (fun next continuing => ?_) fun _ _ => id
      rw [Bool.or_false] at continuing
      exact continuing
  | succ depth induction =>
      refine (Reads.many statement_repeats (statement?_reads induction)).mono (Nat.le_refl _)
        (fun next continuing => ?_) fun _ _ => id
      rw [Bool.or_false] at continuing
      exact continuing

theorem statements_reads (limit : Nat) :
    ReadsBlocks limit Parser.block := by
  intro cursor within
  exact (blockUpTo_reads cursor.rest.length cursor ⟨Nat.le_refl _, within.spelled⟩).congr rfl

end Plc.Parser
