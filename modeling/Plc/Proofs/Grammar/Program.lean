import Plc.Proofs.Grammar.Statements

/-! Programs are read as the grammar says: a list of tokens is a program when it has a
derivation, and it has at most one. -/

namespace Plc

namespace Parser

open Grammar

variable {limit : Nat} {continues : Option Token → Bool}

/-! ## Globals -/

def globalWith (isMutable : Bool) (value : Parser (Option Expr)) : Parser (Option Global) := do
  let id ← freshId
  let name ← name
  let typeName ← typeName?
  let value ← value
  let _ ← symbol ";"
  return some ⟨id, name, typeName, isMutable, value⟩

theorem globalWith_reads {isMutable : Bool} {value : Parser (Option Expr)}
    {form : Form (Option Expr)} {follows : Option Token → Bool}
    (reads : ∀ limit, Reads limit value form follows (Option.Rel Expr.Agrees))
    (first : ∀ token, form.first token = true → token.isSymbol "=" = true)
    (apart : ∀ token, token.isSymbol ";" = true → follows (some token) = false) :
    Reads limit (globalWith isMutable value) (.global isMutable form) continues
      fun found tree => ∃ result : Global, found = some result ∧ result.Agrees tree := by
  refine Reads.freshId fun id => name_reads.bind (fun name _ same => ?_) (by simp)
  refine typeName?_reads.bind (fun typeName _ typed => ?_) ?_
  · refine (reads _).bind (fun value _ agrees => ?_) (apart_of_first rfl apart)
    refine (Reads.take _ _ _).last fun _ _ _ => ⟨_, rfl, ?_⟩
    rw [Global.Agrees, Global.bare, same, eq_of_rel typed, map_eq_of_rel agrees]
  · apply apart_of_first (by simp)
    intro token begins
    have begins : token.isSymbol "=" = true ∨ token.isSymbol ";" = true := by
      rcases Bool.or_eq_true_iff.mp begins with begins | begins
      · exact .inl (first token begins)
      · exact .inr (Bool.and_eq_true_iff.mp begins).2
    rcases begins with begins | begins
    · exact Token.isSymbol_eq_false begins (by decide)
    · exact Token.isSymbol_eq_false begins (by decide)

theorem map_some_listLiteral : (some <$> listLiteral) = (do
    let opening ← symbol "["
    let elements ← Parser.separated "]" Parser.expression
    let _ ← symbol "]"
    return some (Expr.list ⟨← freshId, opening.offset⟩ elements)) := by
  simp only [listLiteral, map_eq_pure_bind, bind_assoc, pure_bind]

theorem listLiteral_reads :
    Reads limit (some <$> listLiteral) .elements continues (Option.Rel Expr.Agrees) := by
  have element : Reads (limit - 1) Parser.expression .expression _ Expr.Agrees := value_reads
  have several := element.separated rfl fun _ => not_comma_of_continues
  have elements : Reads (limit - 1) (Parser.separated "]" Parser.expression)
      (.orEmpty (.separated .expression)) (fun next => !next.any (·.isSymbol "]"))
      (List.Forall₂ Expr.Agrees) :=
    Reads.expressions several rfl ?_ (by decide) (by decide)
  · rw [map_some_listLiteral]
    refine Reads.token fun opening _ => elements.bind (fun results trees agree => ?_) ?_
    · refine Reads.numbered (Reads.take _ _ _) fun _ id _ _ => .some ?_
      rw [Expr.Agrees, Expr.bare, Expr.bareAll_eq_map, map_eq_of_forall₂ agree]
    · exact apart_of_first rfl fun token closes => by simpa using closes
  · funext token
    simp [Rule.first]

def globalValue (keyword : String) : Parser (Option Expr) :=
  if keyword = "VAR" then
    after? "=" Parser.expression
  else do
    let _ ← symbol "="
    some <$> (if keyword = "LIST" then listLiteral else Parser.expression)

theorem run_global?_of_fits {cursor : Cursor} {token : Token} {rest : List Token}
    (next : cursor.rest = token :: rest)
    (fits : (token.isWord "LIST" || token.isWord "VAR" || token.isWord "VAL") = true) :
    global?.run cursor = (globalWith (token.literal != "VAL") (globalValue token.literal)).run
      { cursor with rest, lastEnd := token.stop } := by
  rw [global?, run_take?_bind_of_fits next fits]
  simp only [globalWith, globalValue]
  by_cases isVar : token.literal = "VAR"
  · simp only [isVar, if_true]
  · simp only [isVar, if_false, bind_assoc]

theorem global?_of_isWord {cursor : Cursor} {token : Token} {rest : List Token} {literal : String}
    {form : Form (Option Expr)} {isMutable : Bool} {follows : Option Token → Bool}
    (within : cursor.Within limit) (next : cursor.rest = token :: rest)
    (isWord : token.isWord literal = true)
    (keyword : (literal = "LIST" ∨ literal = "VAR" ∨ literal = "VAL") ∧
      (literal != "VAL") = isMutable)
    (reads : ∀ limit, Reads limit (globalValue literal) form follows (Option.Rel Expr.Agrees))
    (first : ∀ token, form.first token = true → token.isSymbol "=" = true)
    (apart : ∀ token, token.isSymbol ";" = true → follows (some token) = false) :
    global?.ReadsAt cursor (.skip (.word literal) (.global isMutable form)) continues
      fun found tree => ∃ result : Global, found = some result ∧ result.Agrees tree := by
  have declared : Reads limit (do
      let _ ← Parser.take "" (·.isWord literal)
      globalWith isMutable (globalValue literal))
      (.skip (.word literal) (.global isMutable form)) continues
      fun found tree => ∃ result : Global, found = some result ∧ result.Agrees tree :=
    .token fun _ _ => globalWith_reads reads first apart
  have fits : (token.isWord "LIST" || token.isWord "VAR" || token.isWord "VAL") = true := by
    rcases keyword.1 with rfl | rfl | rfl <;> simp [isWord]
  apply (declared cursor within).congr
  rw [run_take_bind_of_fits _ next isWord, run_global?_of_fits next fits,
    (Token.isWord_iff.mp isWord).2, keyword.2]

theorem global?_reads :
    ReadsItem limit global? (rules .global)
      (fun token => token.isWord "LIST" || token.isWord "VAR" || token.isWord "VAL")
      (fun _ => false) Global.Agrees := by
  intro cursor within
  rcases next_cases (fun token => token.isWord "LIST" || token.isWord "VAR" || token.isWord "VAL")
    cursor.rest with stops | ⟨token, rest, next, fits⟩
  · refine .inl ⟨stops, ?_⟩
    rw [global?, run_bind, run_take?_of_stops stops]
    rfl
  · refine .inr ⟨not_stops_of_fits next fits, ?_⟩
    simp only [Bool.or_eq_true_iff] at fits
    rcases fits with (isList | isVar) | isVal
    · have value : ∀ limit, Reads limit (globalValue "LIST") (.skip (.symbol "=") .elements)
          (fun _ => false) (Option.Rel Expr.Agrees) := by
        intro limit
        exact .token fun _ _ => listLiteral_reads
      refine .left (.rule (global?_of_isWord within next isList (by decide) value (by simp)
        fun _ _ => rfl)) (absent_of_first next rfl ?_)
      simp [Rule.first, Token.isWord_eq_false isList]
    · have value : ∀ limit, Reads limit (globalValue "VAR") (.after "=" .expression) _
          (Option.Rel Expr.Agrees) := fun limit => value?_reads
      refine .right (.left (.rule (global?_of_isWord within next isVar (by decide) value
        (by simp) fun _ => stops_of_semicolon)) ?_) ?_
      · apply absent_of_first next rfl
        simp [Rule.first, Token.isWord_eq_false isVar]
      · apply absent_of_first next rfl
        simp [Rule.first, Token.isWord_eq_false isVar]
    · have value : ∀ limit, Reads limit (globalValue "VAL")
          (.skip (.symbol "=") (.rule .expression some)) (·.any Token.continuesExpression)
          (Option.Rel Expr.Agrees) := by
        intro limit
        exact .token fun _ _ => .rule ((expression_reads _).last fun _ _ => .some)
      refine .right (.right (.rule (global?_of_isWord within next isVal (by decide) value
        (by simp) fun token semicolon => ?_)) ?_) ?_
      · exact Token.continuesExpression_of_isSymbol semicolon (by decide)
      · apply absent_of_first next rfl
        simp [Rule.first, Token.isWord_eq_false isVal]
      · apply absent_of_first next rfl
        simp [Rule.first, Token.isWord_eq_false isVal]

/-! ## Functions -/

theorem parameter_reads :
    Reads limit parameter .parameter (·.any (·.isSymbol ":")) Eq := by
  refine name_reads.bind (fun name _ same => ?_) (by simp)
  refine typeName?_reads.last fun typeName _ typed => ?_
  rw [same, eq_of_rel typed]

theorem parameters_reads :
    Reads limit (Parser.separated ")" parameter) (.orEmpty (.rule .parameters id))
      (fun next => !next.any (·.isSymbol ")")) (List.Forall₂ Eq) := by
  have single : Reads limit parameter .parameter _ Eq := parameter_reads
  have several := single.separated rfl fun token colon =>
    Token.isSymbol_eq_false colon (by decide)
  refine Reads.unless ")" several.rule .nil rfl (fun token closes => ⟨?_, ?_⟩) rfl
  · simp [Rule.first, (Token.isSymbol_iff.mp closes).1]
  · simp [Token.isSymbol, (Token.isSymbol_iff.mp closes).2]

theorem procedure?_reads :
    ReadsItem limit procedure? (rules .function) (·.isWord "FUN") (fun _ => false)
      Procedure.Agrees := by
  apply ReadsItem.skip rfl
  refine Reads.freshId fun id => name_reads.bind (fun name _ same => ?_) (by simp)
  apply Reads.token
  intro _ _
  refine parameters_reads.bind (fun parameters trees agree => ?_) ?_
  · apply Reads.token
    intro _ _
    refine typeName?_reads.bind (fun resultTypeName _ typed => ?_) ?_
    · apply Reads.token
      intro _ _
      refine (block_reads (statements_reads limit) (by simp; omega)).bind
        (fun body _ sameBody => ?_) (apart_of_end "END" rfl (by simp) (by decide))
      refine (Reads.take _ _ _).last fun _ _ _ => ⟨_, rfl, ?_⟩
      have sameParameters : parameters = trees := by simpa using agree
      rw [Procedure.Agrees, Procedure.bare, same, eq_of_rel typed, sameBody, sameParameters]
    · apply apart_of_first rfl
      intro token first
      have isWord : token.isWord "DO" = true := by simpa using first
      simp [Token.isSymbol, (Token.isWord_iff.mp isWord).1]
  · exact apart_of_first rfl fun token first => by simpa using first

/-! ## Programs -/

theorem global_repeats : Repeats (Form.rule .global id) Rule.global.first (fun _ => false) :=
  ⟨rfl, fun _ => id, fun _ impossible => by cases impossible⟩

theorem function_repeats : Repeats (Form.rule .function id) Rule.function.first (fun _ => false) :=
  ⟨rfl, fun _ => id, fun _ impossible => by cases impossible⟩

/-- A program up to the first token that does not belong to it. -/
def declarations : Parser Program := do
  let globals ← Parser.many global?
  let procedures ← Parser.many procedure?
  return ⟨globals, procedures⟩

theorem declarations_reads :
    Reads limit declarations (rules .source) (·.any Rule.source.first)
      fun program tree => program.bare = tree := by
  have globals : Reads limit _ (.list (.rule .global id)) _ (List.Forall₂ Global.Agrees) :=
    .many global_repeats global?_reads.rule
  have functions : Reads limit _ (.list (.rule .function id)) _ (List.Forall₂ Procedure.Agrees) :=
    .many function_repeats procedure?_reads.rule
  refine globals.bind (fun globals globalTrees agree => ?_) fun next continuing => ?_
  · refine (functions.mono (by simp) (fun next continuing => ?_) fun _ _ => id).last
      fun functions functionTrees agree' => ?_
    · rw [Bool.or_false] at continuing
      cases next with
      | none => cases continuing
      | some token => simp_all [Rule.first]
    · have sameGlobals : globals.map Global.bare = globalTrees := map_eq_of_forall₂ agree
      have sameFunctions : functions.map Procedure.bare = functionTrees := map_eq_of_forall₂ agree'
      exact congr (congrArg Program.mk sameGlobals) sameFunctions
  · rw [Bool.or_false] at continuing
    cases next with
    | none => cases continuing
    | some token =>
        refine ⟨fun other member => ?_, fun _ => ?_⟩
        · cases member
          simp only [Option.any_some, Rule.first, Bool.or_eq_true_iff] at continuing
          rcases continuing with (isWord | isWord) | isWord
          · exact Token.isWord_eq_false isWord (by decide)
          · exact Token.isWord_eq_false isWord (by decide)
          · exact Token.isWord_eq_false isWord (by decide)
        · simp_all [Rule.first]

end Parser

open Grammar

section

variable {tokens : List Token}

theorem Program.ofTokens_eq (tokens : List Token) :
    Program.ofTokens tokens = Parser.declarations.run ⟨tokens, 0, 1⟩ >>= fun read =>
      (Parser.endOfText >>= fun _ => pure read.1).run' read.2 := by
  have regrouped : Parser.program = (do
      let program ← Parser.declarations
      Parser.endOfText
      return program) := by
    simp only [Parser.program, Parser.declarations, bind_assoc, pure_bind]
  rw [Program.ofTokens, regrouped]
  show Prod.fst <$> (Parser.declarations.run ⟨tokens, 0, 1⟩ >>= _) = _
  cases Parser.declarations.run ⟨tokens, 0, 1⟩ <;> rfl

theorem Program.ofTokens_of_error {error : GrammarError}
    (failed : Parser.declarations.run ⟨tokens, 0, 1⟩ = .error error) :
    Program.ofTokens tokens = .error error := by
  rw [Program.ofTokens_eq, failed]
  rfl

theorem Program.ofTokens_of_ok {program : Program} {after : Cursor}
    (ran : Parser.declarations.run ⟨tokens, 0, 1⟩ = .ok (program, after)) :
    Program.ofTokens tokens = match after.rest with
      | [] => .ok program
      | token :: _ => .error ⟨token.offset, .trailingToken token.literal⟩ := by
  rw [Program.ofTokens_eq, ran]
  show Prod.fst <$> (Parser.endOfText after >>= _) = _
  unfold Parser.endOfText
  cases after.rest <;> rfl

end

/-- Tokens that all spell something are a program when they have a derivation, and there
is at most one. The program is then the tree of the derivation. -/
theorem Program.ofTokens_spec {tokens : List Token} (spelled : ∀ token ∈ tokens, token.Spelled) :
    match Program.ofTokens tokens with
    | .ok program => ∃ derivation : Derivation (rules .source) tokens,
        program.bare = derivation.value ∧ ∀ other, other = derivation
    | .error _ => IsEmpty (Derivation (rules .source) tokens) := by
  have reads := Parser.declarations_reads ⟨tokens, 0, 1⟩ ⟨Nat.le_refl _, spelled⟩
  unfold Parser.ReadsAt at reads
  split at reads
  · rename_i program after ran
    rcases reads with ⟨⟨read, derivation⟩, consumed, agrees, only⟩
    -- a derivation of all tokens is the one that the parser found
    have whole : ∀ other : Derivation (rules .source) tokens,
        (⟨tokens, other⟩ : Phrase (rules .source)) = ⟨read, derivation⟩ := fun other =>
      only ⟨tokens, other⟩ [] ⟨rfl, List.append_nil _⟩
    rw [Program.ofTokens_of_ok ran]
    cases left : after.rest with
    | nil =>
        rw [left, List.append_nil] at consumed
        cases consumed
        refine ⟨derivation, agrees, fun other => ?_⟩
        cases whole other
        rfl
    | cons token rest =>
        refine ⟨fun other => ?_⟩
        have same := congrArg Phrase.tokens (whole other)
        rw [left] at consumed
        have lengths := congrArg List.length (consumed.symm.trans same)
        simp at lengths
  · rename_i error ran
    rw [Program.ofTokens_of_error ran]
    exact ⟨fun derivation => reads ⟨tokens, derivation⟩ [] ⟨rfl, List.append_nil _⟩⟩

/-- The tokens of a text are a program exactly when they have a derivation from `source`.
There is at most one derivation, and the program is its tree. -/
theorem Program.exists_ofTokens_iff {text : String} {tokens : List Token}
    (scanned : Token.scan text = .ok tokens) :
    ((∃ program, Program.ofTokens tokens = .ok program) ↔
      Nonempty (Derivation (rules .source) tokens)) ∧
    (∀ one other : Derivation (rules .source) tokens, one = other) ∧
    ∀ program (derivation : Derivation (rules .source) tokens),
      Program.ofTokens tokens = .ok program → program.bare = derivation.value := by
  have spec := Program.ofTokens_spec (Token.spelled_of_scan scanned)
  split at spec
  · rename_i program parsed
    rcases spec with ⟨derivation, same, only⟩
    refine ⟨⟨fun _ => ⟨derivation⟩, fun _ => ⟨program, parsed⟩⟩, fun one other => ?_, ?_⟩
    · rw [only one, only other]
    · intro found other foundParsed
      rw [parsed] at foundParsed
      cases foundParsed
      rw [only other]
      exact same
  · rename_i error failed
    refine ⟨⟨fun ⟨program, parsed⟩ => ?_, fun ⟨derivation⟩ => spec.elim derivation⟩,
      fun one => spec.elim one, fun _ derivation => spec.elim derivation⟩
    rw [failed] at parsed
    cases parsed

/-- A keyword is a name where a name is asked for, and there is one way to read it. -/
theorem Program.exists_ofTokens_iff_of_keywords :
    ∃ tokens, Token.scan "FUN main() DO LET IF: DO = DO[] * 2 + IF(END); END" = .ok tokens ∧
      ∃ derivation : Derivation (rules .source) tokens, ∀ other, other = derivation := by
  have computed : (match Token.scan "FUN main() DO LET IF: DO = DO[] * 2 + IF(END); END" with
      | .ok tokens => (Program.ofTokens tokens).toOption.isSome
      | .error _ => false) = true := by decide +kernel
  split at computed
  · rename_i tokens scanned
    cases parsed : Program.ofTokens tokens with
    | error error =>
        rw [parsed] at computed
        cases computed
    | ok program =>
        have decided := Program.exists_ofTokens_iff scanned
        rcases decided.1.mp ⟨program, parsed⟩ with ⟨derivation⟩
        exact ⟨tokens, scanned, derivation, fun other => decided.2.1 other derivation⟩
  · cases computed

end Plc
