import Plc.Parser.Program
import Plc.Proofs.Program.Succession

/-! The numbers that the parser gives out. Each part of a program gets the next number,
so what is read between two cursors has exactly the numbers between theirs, in the order
in which its parts are completed. -/

namespace Plc

namespace Parser

/-! ## What a parser numbers -/

/-- With parts that have the numbers `given`, the parser makes a result whose parts have
these numbers and then all those it took from the cursor. -/
def Numbers (given : List Nat) (numbers : α → List Nat) (parser : Parser α) : Prop :=
  ∀ cursor result after, parser cursor = .ok (result, after) →
    ∃ count, after.nextId = cursor.nextId + count ∧
      numbers result = given ++ List.range' cursor.nextId count

namespace Numbers

variable {given : List Nat} {numbers : α → List Nat} {parser : Parser α}

theorem pure {value : α} (same : numbers value = given) :
    Numbers given numbers (pure value) := by
  intro cursor result after read
  cases read
  exact ⟨0, rfl, by simpa using same⟩

theorem throw (error : GrammarError) : Numbers given numbers (throw error) := by
  intro cursor result after read
  cases read

theorem bind {next : α → Parser β} {wanted : β → List Nat}
    (first : Numbers given numbers parser)
    (second : ∀ value, Numbers (numbers value) wanted (next value)) :
    Numbers given wanted (parser >>= next) := by
  intro cursor result after read
  rcases bind_eq_ok read with ⟨value, middle, read, rest⟩
  rcases first cursor value middle read with ⟨count, counted, numbered⟩
  rcases second value middle result after rest with ⟨more, countedMore, numberedMore⟩
  refine ⟨count + more, by omega, ?_⟩
  have ranges : List.range' cursor.nextId (count + more) =
      List.range' cursor.nextId count ++ List.range' middle.nextId more := by
    rw [counted, ← List.range'_append, Nat.one_mul]
  rw [numberedMore, numbered, ranges, List.append_assoc]

theorem beside (alone : Numbers [] numbers parser) (given : List Nat) :
    Numbers given (fun result => given ++ numbers result) parser := by
  intro cursor result after read
  rcases alone cursor result after read with ⟨count, counted, numbered⟩
  exact ⟨count, counted, congrArg (given ++ ·) numbered⟩

theorem of_nextId_eq
    (kept : ∀ cursor result after, parser cursor = .ok (result, after) →
      after.nextId = cursor.nextId) (given : List Nat) :
    Numbers given (fun _ => given) parser := by
  intro cursor result after read
  exact ⟨0, kept cursor result after read, by simp⟩

theorem freshId (given : List Nat) : Numbers given (fun id => given ++ [id]) freshId := by
  intro cursor result after read
  cases read
  exact ⟨1, rfl, rfl⟩

/-! ### Parsers that take no number -/

theorem fail (expected : String) : Numbers given numbers (fail expected) := by
  intro cursor result after read
  unfold Parser.fail at read
  split at read <;> cases read

theorem get (given : List Nat) : Numbers given (fun _ => given) (get : Parser Cursor) :=
  of_nextId_eq (fun _ _ _ read => by cases read; rfl) given

theorem nextIs (property : Token → Bool) (given : List Nat) :
    Numbers given (fun _ => given) (nextIs property) :=
  of_nextId_eq (fun _ _ _ read => by cases read; rfl) given

theorem take? (property : Token → Bool) (given : List Nat) :
    Numbers given (fun _ => given) (take? property) := by
  apply of_nextId_eq
  intro cursor result after read
  unfold Parser.take? at read
  split at read
  · cases read
    rfl
  · split at read <;>
    · cases read
      rfl

theorem take (expected : String) (property : Token → Bool) (given : List Nat) :
    Numbers given (fun _ => given) (take expected property) := by
  apply (take? property given).bind
  intro found
  cases found with
  | some token => exact pure rfl
  | none => exact fail expected

theorem symbol (literal : String) (given : List Nat) :
    Numbers given (fun _ => given) (symbol literal) :=
  take literal _ given

theorem word (literal : String) (given : List Nat) :
    Numbers given (fun _ => given) (word literal) :=
  take literal _ given

theorem skipSymbol (literal : String) (given : List Nat) :
    Numbers given (fun _ => given) (skipSymbol literal) :=
  (take? _ given).bind fun _ => pure rfl

theorem skipWord (literal : String) (given : List Nat) :
    Numbers given (fun _ => given) (skipWord literal) :=
  (take? _ given).bind fun _ => pure rfl

theorem name (given : List Nat) : Numbers given (fun _ => given) name :=
  (take _ _ given).bind fun _ => pure rfl

/-! ### Parsers made of others -/

theorem ite {condition : Bool} {whenTrue whenFalse : Parser α}
    (trueNumbers : Numbers given numbers whenTrue)
    (falseNumbers : Numbers given numbers whenFalse) :
    Numbers given numbers (if condition then whenTrue else whenFalse) := by
  cases condition <;> assumption

theorem after? (literal : String) (item : Numbers [] numbers parser) (given : List Nat) :
    Numbers given (fun result => given ++ (result.map numbers).getD [])
      (after? literal parser) := by
  apply (skipSymbol literal given).bind
  intro found
  apply ite
  · exact (item.beside given).bind fun _ => pure rfl
  · exact pure (by simp)

theorem typeName? (given : List Nat) : Numbers given (fun _ => given) typeName? := by
  have unnumbered : Numbers [] (fun _ : String => []) Parser.name := name []
  have read := after? ":" unnumbered given
  have none : ∀ result : Option String,
      given ++ (result.map fun _ => ([] : List Nat)).getD [] = given := by
    intro result
    cases result <;> simp
  rw [Parser.typeName?]
  simpa only [none] using read

theorem many {item? : Parser (Option α)}
    (item : Numbers [] (fun result => (result.map numbers).getD []) item?) :
    Numbers [] (fun results => results.flatMap numbers) (many item?) := by
  have upTo : ∀ count, Numbers [] (fun results => results.flatMap numbers)
      (manyUpTo item? count) := by
    intro count
    induction count with
    | zero => exact pure rfl
    | succ count induction =>
        apply item.bind
        intro found
        cases found with
        | none => exact pure rfl
        | some first => exact (induction.beside (numbers first)).bind fun _ => pure rfl
  exact (get []).bind fun cursor => upTo cursor.rest.length

theorem separated (close : String) (item : Numbers [] numbers parser) :
    Numbers [] (fun results => results.flatMap numbers) (separated close parser) := by
  apply (nextIs _ []).bind
  intro closed
  cases closed with
  | true => exact pure rfl
  | false =>
      apply item.bind
      intro first
      have others : Numbers [] (fun results => results.flatMap numbers) (Parser.many do
          if ← Parser.skipSymbol "," then return some (← parser) else return none) :=
        many ((skipSymbol "," []).bind fun _ =>
          ite (item.bind fun _ => pure rfl) (pure rfl))
      exact (others.beside (numbers first)).bind fun _ => pure rfl

end Numbers

/-! ## Expressions -/

theorem operator?_numbers (level : Operator.Level) (given : List Nat) :
    Numbers given (fun _ => given) (operator? level) := by
  apply (Numbers.take? _ given).bind
  intro found
  cases found <;> exact .pure rfl

def Step.succession (step : Step) : List Nat :=
  step.right.succession ++ [step.id]

theorem succession_foldSteps (first : Expr) (steps : List Step) :
    (foldSteps first steps).succession =
      first.succession ++ steps.flatMap Step.succession := by
  suffices general : ∀ (offset : Nat) (left : Expr),
      (steps.foldl (fun left step => .binary ⟨step.id, offset⟩ step.operator left step.right)
        left).succession = left.succession ++ steps.flatMap Step.succession from
    general first.node.offset first
  intro offset left
  induction steps generalizing left with
  | nil => simp
  | cons step rest induction =>
      rw [List.foldl_cons, induction, Expr.succession, List.flatMap_cons, Step.succession]
      simp only [List.append_assoc]

theorem step_numbers (level : Operator.Level) {operand : Parser Expr}
    (numbered : Numbers [] Expr.succession operand) :
    Numbers [] (fun step => (step.map Step.succession).getD []) (do
      match ← operator? level with
      | none => return none
      | some operator =>
          let right ← operand
          return some ⟨operator, right, ← freshId⟩) := by
  apply (operator?_numbers level []).bind
  intro found
  cases found with
  | none => exact .pure rfl
  | some operator =>
      exact numbered.bind fun right => (Numbers.freshId _).bind fun _ => .pure rfl

theorem chain_numbers (level : Operator.Level) {operand : Parser Expr}
    (numbered : Numbers [] Expr.succession operand) :
    Numbers [] Expr.succession (chain level operand) := by
  apply numbered.bind
  intro first
  have steps := (Numbers.many (step_numbers level numbered)).beside first.succession
  exact steps.bind fun steps => .pure (succession_foldSteps first steps)

theorem completed_numbers {parts : List Nat} {make : Nat → Expr}
    (made : ∀ id, (make id).succession = parts ++ [id]) :
    Numbers parts Expr.succession (do return make (← freshId)) :=
  (Numbers.freshId parts).bind fun id => .pure (made id)

section

variable {expression : Parser Expr}

theorem afterName_numbers (numbered : Numbers [] Expr.succession expression) (token : Token) :
    Numbers [] Expr.succession (afterName expression token) := by
  apply (Numbers.skipSymbol "(" []).bind
  intro _
  apply Numbers.ite
  · apply (Numbers.separated ")" numbered).bind
    intro arguments
    apply (Numbers.symbol ")" _).bind
    intro _
    apply completed_numbers
    intro id
    rw [← Expr.successionOfAll_eq_flatMap]
    rfl
  · apply (Numbers.skipSymbol "[" []).bind
    intro _
    apply Numbers.ite
    · apply (Numbers.skipSymbol "]" []).bind
      intro _
      apply Numbers.ite
      · exact completed_numbers fun _ => rfl
      · apply numbered.bind
        intro index
        apply (Numbers.symbol "]" _).bind
        intro _
        exact completed_numbers fun _ => rfl
    · exact completed_numbers fun _ => rfl

theorem primary_numbers (numbered : Numbers [] Expr.succession expression) :
    Numbers [] Expr.succession (primary expression) := by
  apply (Numbers.take _ _ []).bind
  intro token
  split
  · apply numbered.bind
    intro inner
    apply (Numbers.symbol ")" _).bind
    intro _
    exact completed_numbers fun _ => rfl
  · split
    · exact completed_numbers fun _ => rfl
    · exact afterName_numbers numbered token
  · split
    · exact completed_numbers fun _ => rfl
    · exact .throw _

end

theorem expressionUpTo_numbers (depth : Nat) :
    Numbers [] Expr.succession (expressionUpTo depth) := by
  induction depth with
  | zero => exact .fail _
  | succ depth induction =>
      exact chain_numbers _ (chain_numbers _ (chain_numbers _ (chain_numbers _
        (primary_numbers induction))))

theorem expression_numbers : Numbers [] Expr.succession expression :=
  (Numbers.get []).bind fun _ => expressionUpTo_numbers _

theorem value?_numbers (given : List Nat) :
    Numbers given (fun value => given ++ Expr.successionOf? value) (after? "=" expression) := by
  have read := Numbers.after? "=" expression_numbers given
  have same : ∀ value : Option Expr,
      (value.map Expr.succession).getD [] = Expr.successionOf? value := by
    intro value
    cases value <;> rfl
  simpa only [same] using read

/-! ## Statements -/

theorem declaration_numbers : Numbers [] Stmt.succession declaration := by
  apply (Numbers.freshId []).bind
  intro id
  apply (Numbers.name _).bind
  intro name
  apply (Numbers.typeName? _).bind
  intro typeName
  apply (value?_numbers _).bind
  intro value
  apply (Numbers.symbol ";" _).bind
  intro _
  exact .pure rfl

theorem returns_numbers : Numbers [] Stmt.succession returns := by
  apply expression_numbers.bind
  intro value
  apply (Numbers.symbol ";" _).bind
  intro _
  exact .pure rfl

theorem simple_numbers : Numbers [] Stmt.succession simple := by
  apply expression_numbers.bind
  intro first
  apply (value?_numbers _).bind
  intro value
  apply (Numbers.symbol ";" _).bind
  intro _
  cases value with
  | none => exact .pure (by simp [Stmt.succession, Expr.successionOf?])
  | some value => exact .pure (by simp [Stmt.succession, Expr.successionOf?])

section

variable {block : Parser (List Stmt)}

theorem conditional_numbers (numbered : Numbers [] Stmt.successionOfAll block) :
    Numbers [] Stmt.succession (conditional block) := by
  apply expression_numbers.bind
  intro condition
  apply (Numbers.word "DO" _).bind
  intro _
  apply (numbered.beside _).bind
  intro whenTrue
  have finish : ∀ whenFalse, Numbers
      (condition.succession ++ Stmt.successionOfAll whenTrue ++ Stmt.successionOfAll whenFalse)
      Stmt.succession (do
        let _ ← word "END"
        return .conditional condition whenTrue whenFalse) := fun whenFalse =>
    (Numbers.word "END" _).bind fun _ => .pure rfl
  apply (Numbers.skipWord "ELSE" _).bind
  intro _
  apply Numbers.ite
  · exact (numbered.beside _).bind finish
  · have empty : Stmt.successionOfAll [] = [] := rfl
    have finished := finish []
    rw [empty, List.append_nil] at finished
    exact finished

theorem case?_numbers (numbered : Numbers [] Stmt.successionOfAll block) :
    Numbers [] (fun found => (found.map Case.succession).getD []) (case? block) := by
  apply (Numbers.skipWord "CASE" _).bind
  intro _
  apply Numbers.ite
  · apply expression_numbers.bind
    intro value
    apply (Numbers.symbol ":" _).bind
    intro _
    apply (numbered.beside _).bind
    intro body
    exact .pure rfl
  · exact .pure rfl

theorem switch_numbers (numbered : Numbers [] Stmt.successionOfAll block) :
    Numbers [] Stmt.succession (switch block) := by
  apply expression_numbers.bind
  intro condition
  apply ((Numbers.many (case?_numbers numbered)).beside _).bind
  intro cases
  apply (Numbers.word "DEFAULT" _).bind
  intro _
  apply (Numbers.skipSymbol ":" _).bind
  intro _
  apply (numbered.beside _).bind
  intro default
  apply (Numbers.word "END" _).bind
  intro _
  apply Numbers.pure
  rw [Stmt.succession, Case.successionOfAll_eq_flatMap, List.append_assoc]
  simp [Case.succession, Expr.successionOf?]

theorem loop_numbers (numbered : Numbers [] Stmt.successionOfAll block) :
    Numbers [] Stmt.succession (loop block) := by
  apply expression_numbers.bind
  intro condition
  apply (Numbers.word "DO" _).bind
  intro _
  apply (numbered.beside _).bind
  intro body
  apply (Numbers.word "END" _).bind
  intro _
  exact .pure rfl

theorem statement_numbers (numbered : Numbers [] Stmt.successionOfAll block) :
    Numbers [] Stmt.succession (statement block) :=
  (Numbers.skipWord "LET" []).bind fun _ => .ite declaration_numbers <|
    (Numbers.skipWord "IF" []).bind fun _ => .ite (conditional_numbers numbered) <|
      (Numbers.skipWord "SWITCH" []).bind fun _ => .ite (switch_numbers numbered) <|
        (Numbers.skipWord "WHILE" []).bind fun _ => .ite (loop_numbers numbered) <|
          (Numbers.skipWord "RETURN" []).bind fun _ => .ite returns_numbers simple_numbers

theorem statement?_numbers (numbered : Numbers [] Stmt.successionOfAll block) :
    Numbers [] (fun found => (found.map Stmt.succession).getD []) (statement? block) := by
  apply (Numbers.nextIs _ []).bind
  intro _
  apply Numbers.ite
  · exact (statement_numbers numbered).bind fun _ => .pure rfl
  · exact .pure rfl

end

theorem blockUpTo_numbers (depth : Nat) :
    Numbers [] Stmt.successionOfAll (blockUpTo depth) := by
  induction depth with
  | zero => exact .pure rfl
  | succ depth induction =>
      have read := Numbers.many (statement?_numbers induction)
      have same : Stmt.successionOfAll = fun statements => statements.flatMap Stmt.succession :=
        funext Stmt.successionOfAll_eq_flatMap
      rw [same]
      exact read

theorem block_numbers : Numbers [] Stmt.successionOfAll block :=
  (Numbers.get []).bind fun _ => blockUpTo_numbers _

/-! ## Declarations -/

theorem listLiteral_numbers : Numbers [] Expr.succession listLiteral := by
  apply (Numbers.symbol "[" []).bind
  intro opening
  apply (Numbers.separated "]" expression_numbers).bind
  intro elements
  apply (Numbers.symbol "]" _).bind
  intro _
  apply completed_numbers
  intro id
  rw [← Expr.successionOfAll_eq_flatMap]
  rfl

theorem global?_numbers :
    Numbers [] (fun found => (found.map Global.succession).getD []) global? := by
  apply (Numbers.take? _ []).bind
  intro found
  cases found with
  | none => exact .pure rfl
  | some keyword =>
      apply (Numbers.freshId []).bind
      intro id
      apply (Numbers.name _).bind
      intro name
      apply (Numbers.typeName? _).bind
      intro typeName
      have finish : ∀ value, Numbers ([id] ++ Expr.successionOf? value)
          (fun found => (found.map Global.succession).getD []) (do
            let _ ← symbol ";"
            return some ⟨id, name, typeName, keyword.literal != "VAL", value⟩) := fun value =>
        (Numbers.symbol ";" _).bind fun _ => .pure rfl
      have finishSome : ∀ {parser : Parser Expr}, Numbers [] Expr.succession parser →
          Numbers [id] (fun value => [id] ++ Expr.successionOf? value) (some <$> parser) := by
        intro parser numbered
        rw [map_eq_pure_bind]
        exact (numbered.beside [id]).bind fun _ => .pure rfl
      dsimp only
      split
      · exact (value?_numbers [id]).bind finish
      · apply (Numbers.symbol "=" [id]).bind
        intro _
        split
        · exact (finishSome listLiteral_numbers).bind finish
        · exact (finishSome expression_numbers).bind finish

theorem parameter_numbers : Numbers [] (fun _ => []) parameter :=
  (Numbers.name []).bind fun _ => (Numbers.typeName? []).bind fun _ => .pure rfl

theorem procedure?_numbers :
    Numbers [] (fun found => (found.map Procedure.succession).getD []) procedure? := by
  apply (Numbers.skipWord "FUN" []).bind
  intro _
  apply Numbers.ite
  · apply (Numbers.freshId []).bind
    intro id
    apply (Numbers.name _).bind
    intro name
    apply (Numbers.symbol "(" _).bind
    intro _
    apply ((Numbers.separated ")" parameter_numbers).beside _).bind
    intro parameters
    apply (Numbers.symbol ")" _).bind
    intro _
    apply (Numbers.typeName? _).bind
    intro typeName
    apply (Numbers.word "DO" _).bind
    intro _
    apply (block_numbers.beside _).bind
    intro body
    apply (Numbers.word "END" _).bind
    intro _
    have unnumbered : (parameters.flatMap fun _ => ([] : List Nat)) = [] :=
      List.flatMap_eq_nil_iff.mpr fun _ _ => rfl
    apply Numbers.pure
    rw [unnumbered]
    exact rfl
  · exact .pure rfl

theorem program_numbers : Numbers [] Program.succession program := by
  apply (Numbers.many global?_numbers).bind
  intro globals
  apply ((Numbers.many procedure?_numbers).beside _).bind
  intro procedures
  have ended : ∀ given, Numbers given (fun _ => given) endOfText := by
    apply Numbers.of_nextId_eq
    intro cursor result after read
    unfold endOfText at read
    split at read
    · cases read
      rfl
    · cases read
  exact (ended _).bind fun _ => .pure rfl

end Parser

/-- The parts of a program are numbered from one in their order. -/
theorem Program.succession_eq_range' {tokens : List Token} {program : Program}
    (parsed : Program.ofTokens tokens = .ok program) :
    ∃ count, program.succession = List.range' 1 count := by
  unfold Program.ofTokens at parsed
  cases read : Parser.program ⟨tokens, 0, 1⟩ with
  | error error =>
      have failed : Parser.program.run' ⟨tokens, 0, 1⟩ = .error error := by
        rw [StateT.run', read]
        rfl
      rw [failed] at parsed
      cases parsed
  | ok pair =>
      have given : Parser.program.run' ⟨tokens, 0, 1⟩ = .ok pair.1 := by
        rw [StateT.run', read]
        rfl
      rw [given] at parsed
      cases parsed
      rcases Parser.program_numbers _ _ _ read with ⟨count, _, numbered⟩
      exact ⟨count, numbered⟩

/-- The parts of a program are numbered from one, without a gap and without a number
twice. -/
theorem Program.numbers_perm_range' {tokens : List Token} {program : Program}
    (parsed : Program.ofTokens tokens = .ok program) :
    ∃ count, program.numbers.Perm (List.range' 1 count) := by
  rcases Program.succession_eq_range' parsed with ⟨count, numbered⟩
  exact ⟨count, numbered ▸ program.succession_perm.symm⟩

private theorem sublist_flatMap {values : List α} {value : α} (transform : α → List β)
    (member : value ∈ values) : (transform value).Sublist (values.flatMap transform) := by
  rcases List.append_of_mem member with ⟨earlier, later, rfl⟩
  rw [List.flatMap_append, List.flatMap_cons]
  exact (List.sublist_append_left _ _).trans (List.sublist_append_right _ _)

theorem Program.expression_sublist {program : Program} {expression : Expr}
    (member : expression ∈ program.subterms) :
    expression.succession.Sublist program.succession := by
  rcases List.mem_append.mp member with inGlobals | inProcedures
  · rcases List.mem_flatMap.mp inGlobals with ⟨declaration, declared, inside⟩
    have inValue := (Numbered.value? declaration.value).terms expression inside
    apply (inValue.cons declaration.id).trans
    exact (sublist_flatMap Global.succession declared).trans (List.sublist_append_left _ _)
  · rcases List.mem_flatMap.mp inProcedures with ⟨procedure, declared, inside⟩
    have inBody := (Stmt.allNumbered procedure.body).terms expression inside
    apply (inBody.cons procedure.id).trans
    exact (sublist_flatMap Procedure.succession declared).trans (List.sublist_append_right _ _)

/-- The parts of a program that was read have the numbers from one on, each once. An
expression has a larger number than all expressions in it; a global, a function and a
declaration in a block have a smaller number than all parts in them. -/
theorem Program.numbers_ordered {tokens : List Token} {program : Program}
    (parsed : Program.ofTokens tokens = .ok program) :
    (∃ count, program.numbers.Perm (List.range' 1 count)) ∧
    (∀ expression ∈ program.subterms, ∀ part ∈ expression.subterms.tail,
      part.node.id < expression.node.id) ∧
    (∀ declaration ∈ program.globals, ∀ number ∈ Expr.numbersOf? declaration.value,
      declaration.id < number) ∧
    ∀ procedure ∈ program.procedures,
      (∀ number ∈ Stmt.numbersOfAll procedure.body, procedure.id < number) ∧
      ∀ id name typeName value,
        Stmt.declaration id name typeName value ∈ Stmt.nestedInAll procedure.body →
          ∀ number ∈ Expr.numbersOf? value, id < number := by
  rcases Program.succession_eq_range' parsed with ⟨count, numbered⟩
  have sorted : program.succession.Pairwise (· < ·) := by
    rw [numbered]
    exact List.pairwise_lt_range'
  refine ⟨Program.numbers_perm_range' parsed, fun expression member => ?_,
    fun declaration member => ?_, fun procedure member => ⟨?_, ?_⟩⟩
  · exact Expr.number_lt_of_sorted (sorted.sublist (Program.expression_sublist member))
  · have inside : declaration.succession.Sublist program.succession :=
      (sublist_flatMap _ member).trans (List.sublist_append_left _ _)
    intro number among
    exact (List.pairwise_cons.mp (sorted.sublist inside)).1 number
      ((Expr.successionOf?_perm _).mem_iff.mpr among)
  all_goals
    have inside : procedure.succession.Sublist program.succession :=
      (sublist_flatMap _ member).trans (List.sublist_append_right _ _)
    have body := List.pairwise_cons.mp (sorted.sublist inside)
  · exact fun number among => body.1 number ((Stmt.successionOfAll_perm _).mem_iff.mpr among)
  · intro id name typeName value declared number among
    have statement := body.2.sublist ((Stmt.allNumbered procedure.body).statements _ declared)
    exact (List.pairwise_cons.mp statement).1 number
      ((Expr.successionOf?_perm value).mem_iff.mpr among)

/-- A global, a function and a declaration in it come before their values, a sum after its
operands. -/
theorem Program.numbers_ordered_of_sum :
    ∃ tokens program,
      Token.scan "VAL g=1;FUN main():Integer DO LET x=g+2;RETURN x;END" = .ok tokens ∧
      Program.ofTokens tokens = .ok program ∧ program.numbers = [1, 2, 3, 7, 5, 6, 8, 4] ∧
      (∃ count, program.numbers.Perm (List.range' 1 count)) ∧
      ∀ expression ∈ program.subterms, ∀ part ∈ expression.subterms.tail,
        part.node.id < expression.node.id := by
  have computed : ((Token.scan "VAL g=1;FUN main():Integer DO LET x=g+2;RETURN x;END").toOption.any
      fun tokens => (Program.ofTokens tokens).toOption.any fun program =>
        program.numbers == [1, 2, 3, 7, 5, 6, 8, 4]) = true := by decide +kernel
  rcases exists_ok_of_any computed with ⟨tokens, scanned, computed⟩
  rcases exists_ok_of_any computed with ⟨program, parsed, numbers⟩
  have ordered := Program.numbers_ordered parsed
  exact ⟨tokens, program, scanned, parsed, beq_iff_eq.mp numbers, ordered.1, ordered.2.1⟩

end Plc
