import Plc.Proofs.Grammar.Exact.Statements
import Plc.Proofs.Grammar.Program

/-! Programs end where they should. An error is reported at the first token that no program
has after the tokens before it, or at the end of a text that begins one. -/

namespace Plc

namespace Parser

open Grammar

variable {ι : Type} {limit : Nat} {bound : ι → Nat}

/-! ## Globals -/

theorem listLiteral_exact :
    Exact limit (some <$> listLiteral) .elements bound fun _ => some <$> listLiteral := by
  simp only [map_some_listLiteral]
  refine (Exact.symbol "[").bind (fun opening => ?_) (by simp)
  exact (value_exact.separated "]").bind (fun elements => (Exact.symbol "]").numbered _) (by simp)

theorem globalWith_exact (isMutable : Bool) {value : Parser (Option Expr)}
    {form : Form (Option Expr)} (holds : Exact limit value form bound fun _ => value)
    (viable : form.Viable []) :
    Exact limit (globalWith isMutable value) (.global isMutable form) bound fun _ =>
      globalWith isMutable value := by
  refine .freshId fun id => name_exact.bind (fun name => ?_) (by simp [viable])
  refine typeName?_exact.bind (fun typeName => ?_) (by simp [viable])
  exact holds.bind (fun value => (Exact.symbol ";").last _) (by simp)

theorem global?_exactAt {cursor : Cursor} {token : Token} {rest : List Token} {literal : String}
    {form : Form (Option Expr)} {isMutable : Bool} (within : cursor.Within limit)
    (next : cursor.rest = token :: rest) (isWord : token.isWord literal = true)
    (keyword : (literal = "LIST" ∨ literal = "VAR" ∨ literal = "VAL") ∧
      (literal != "VAL") = isMutable)
    (holds : Exact (limit - 1) (globalValue literal) form (fun index => bound index - 1) fun _ =>
      globalValue literal) (viable : form.Viable []) :
    global?.ExactAt cursor (.skip (.word literal) (.global isMutable form)) bound fun _ =>
      global? := by
  have fits : (token.isWord "LIST" || token.isWord "VAR" || token.isWord "VAL") = true := by
    rcases keyword.1 with rfl | rfl | rfl <;> simp [isWord]
  have ran : ∀ {cursor : Cursor} {rest : List Token}, cursor.rest = token :: rest →
      global?.run cursor = (globalWith isMutable (globalValue literal)).run
        { cursor with rest, lastEnd := token.stop } := by
    intro cursor rest next
    rw [run_global?_of_fits next fits, (Token.isWord_iff.mp isWord).2, keyword.2]
  exact .token within next isWord (globalWith_exact isMutable holds viable) (ran next)
    fun _ _ => ran rfl

theorem global?_exact :
    ExactItem limit global? (rules .global)
      (fun token => token.isWord "LIST" || token.isWord "VAR" || token.isWord "VAL") bound
      fun _ => global? := by
  have absent : ∀ cursor : Cursor, Stops (·.any fun token =>
      token.isWord "LIST" || token.isWord "VAR" || token.isWord "VAL") cursor.rest →
      global?.run cursor = .ok (none, cursor) := by
    intro cursor stops
    rw [global?, run_bind, run_take?_of_stops stops]
    rfl
  refine ⟨absent, fun _ => absent, fun cursor within enters => ?_⟩
  rcases next_cases (fun token => token.isWord "LIST" || token.isWord "VAR" || token.isWord "VAL")
    cursor.rest with stops | ⟨token, rest, next, fits⟩
  · exact absurd stops enters
  simp only [Bool.or_eq_true_iff] at fits
  rcases fits with (isList | isVar) | isVal
  · have value : Exact (limit - 1) (globalValue "LIST") (.skip (.symbol "=") .elements)
        (fun index => bound index - 1) fun _ => globalValue "LIST" :=
      (Exact.symbol "=").bind (fun _ => listLiteral_exact) (by simp [Form.elements])
    exact .left (.rule (global?_exactAt within next isList (by decide) value
      (by simp [Form.elements])))
  · have value : Exact (limit - 1) (globalValue "VAR") (.after "=" .expression)
        (fun index => bound index - 1) fun _ => globalValue "VAR" := value?_exact
    exact .right (.left (.rule (global?_exactAt within next isVar (by decide) value (by simp))))
  · have value : Exact (limit - 1) (globalValue "VAL")
        (.skip (.symbol "=") (.rule .expression some))
        (fun index => bound index - 1) fun _ => globalValue "VAL" :=
      (Exact.symbol "=").bind (fun _ => (expression_exact.last some).rule) (by simp)
    exact .right (.right (.rule (global?_exactAt within next isVal (by decide) value
      (.sequence (Form.viable_symbol ..) (Form.viable_rule ..)))))

/-! ## Functions -/

theorem parameter_exact : Exact limit parameter .parameter bound fun _ => parameter :=
  name_exact.bind (fun name => typeName?_exact.last _) (by simp)

theorem parameters_exact :
    Exact limit (Parser.separated ")" parameter) (.orEmpty (.rule .parameters id)) bound fun _ =>
      Parser.separated ")" parameter :=
  (parameter_exact.separated ")").orEmpty fun phrase => ⟨.rule phrase, rfl⟩

theorem procedure?_exact :
    ExactItem limit procedure? (rules .function) (·.isWord "FUN") bound fun _ => procedure? := by
  apply ExactItem.skip rfl
  refine .freshId fun id => name_exact.bind (fun name => ?_) (by simp)
  refine (Exact.symbol "(").bind (fun _ => ?_) (by simp)
  refine parameters_exact.bind (fun parameters => ?_) (by simp)
  refine (Exact.symbol ")").bind (fun _ => ?_) (by simp)
  refine typeName?_exact.bind (fun resultTypeName => ?_) (by simp)
  refine (Exact.word "DO").bind (fun _ => ?_) (by simp)
  exact block_exact.bind (fun body => (Exact.word "END").last _) (by simp)

/-! ## Programs -/

theorem declarations_exact :
    Exact limit declarations (rules .source) bound fun _ => declarations :=
  (Exact.many global?_exact.rule rfl).bind
    (fun globals => (Exact.many procedure?_exact.rule rfl).last (Program.mk globals))
    (Form.viable_many ..)

end Parser

open Grammar

/-! ## Places of errors -/

theorem Program.exists_ofTokens_of_phrase (phrase : Phrase (rules .source))
    (spelled : ∀ token ∈ phrase.tokens, token.Spelled) :
    ∃ program, Program.ofTokens phrase.tokens = .ok program := by
  have spec := Program.ofTokens_spec spelled
  split at spec
  · rename_i program parsed
    exact ⟨program, parsed⟩
  · exact spec.elim phrase.derivation

/-- Tokens that are no program begin with some that open one. The error is about the next
token or the end of the text, and it is the same for all tokens that begin alike. -/
theorem Program.exists_of_error {tokens : List Token} {error : GrammarError}
    (spelled : ∀ token ∈ tokens, token.Spelled) (failed : Program.ofTokens tokens = .error error) :
    ∃ read rest, tokens = read ++ rest ∧ (rules .source).Viable read ∧
      ((∃ expected, error = .unexpected expected (endAfter 0 read) rest.head?) ∨
        ∃ token, rest.head? = some token ∧ error = ⟨token.offset, .trailingToken token.literal⟩) ∧
      ∀ others, others.head? = rest.head? → Program.ofTokens (read ++ others) = .error error := by
  have holds : Parser.declarations.ExactAt ⟨tokens, 0, 1⟩ (rules .source) (id : Nat → Nat) fun _ =>
      Parser.declarations :=
    Parser.declarations_exact _ ⟨Nat.le_refl _, spelled⟩
  unfold Parser.ExactAt at holds
  split at holds
  · rename_i program after ran
    rcases holds with ⟨phrase, consumed, _, settled⟩
    rw [Program.ofTokens_of_ok ran] at failed
    cases next : after.rest with
    | nil =>
        rw [next] at failed
        cases failed
    | cons token rest =>
        rw [next] at failed
        cases failed
        have whole : tokens = phrase.tokens ++ token :: rest := by
          rw [← next]
          exact consumed
        have read : ∀ token ∈ phrase.tokens, token.Spelled := fun token member =>
          spelled token (whole ▸ List.mem_append_left _ member)
        refine ⟨phrase.tokens, token :: rest, whole, .of_phrase phrase read,
          .inr ⟨token, rfl, rfl⟩, fun others same => ?_⟩
        cases others with
        | nil => cases same
        | cons other others =>
            cases same
            rw [Program.ofTokens_of_ok (settled _ (token :: others) (Nat.le_refl _)
              (by rw [next]; rfl))]
  · rename_i found ran
    rw [Program.ofTokens_of_error ran] at failed
    cases failed
    rcases holds with ⟨read, rest, expected, consumed, viable, same, settled⟩
    exact ⟨read, rest, consumed, viable, .inl ⟨expected, same⟩, fun others next =>
      Program.ofTokens_of_error (settled _ others (Nat.le_refl _) next)⟩

/-- An error is after some tokens that can be completed to a program. Either they are all the
tokens of the text, and the error is at its end, or the error is about the next token, with
which no program goes on. -/
theorem Program.parse_error_position {text : String} {tokens : List Token} {error : GrammarError}
    (scanned : Token.scan text = .ok tokens) (failed : Program.ofTokens tokens = .error error) :
    ∃ count ≤ tokens.length,
      (∃ more program, Program.ofTokens (tokens.take count ++ more) = .ok program) ∧
      ((count = tokens.length ∧ ∃ expected, error =
          ⟨(tokens.getLast?.map Token.stop).getD 0, .expected expected none⟩) ∨
        ∃ token, tokens[count]? = some token ∧
          (∀ accepted, tokens.take (count + 1) <+: accepted →
            ∀ program, Program.ofTokens accepted ≠ .ok program) ∧
          error.offset = token.offset ∧
          ((∃ expected, error.cause = .expected expected (some token.literal)) ∨
            error.cause = .trailingToken token.literal)) := by
  rcases Program.exists_of_error (Token.spelled_of_scan scanned) failed with
    ⟨read, rest, rfl, ⟨phrase, ⟨more, completed⟩, spelled⟩, place, alike⟩
  rcases Program.exists_ofTokens_of_phrase phrase spelled with ⟨program, parsed⟩
  refine ⟨read.length, by simp, ⟨more, program, ?_⟩, ?_⟩
  · rw [List.take_left, completed]
    exact parsed
  cases rest with
  | nil =>
      rcases place with ⟨expected, rfl⟩ | ⟨token, impossible, _⟩
      · refine .inl ⟨by simp, expected, ?_⟩
        rw [List.append_nil]
        rfl
      · cases impossible
  | cons token rest =>
      refine .inr ⟨token, by simp, ?_, ?_⟩
      · rintro accepted ⟨others, rfl⟩ program
        have front : (read ++ token :: rest).take (read.length + 1) = read ++ [token] := by
          rw [List.append_cons]
          exact List.take_left' (by simp)
        have same := alike (token :: others) rfl
        rw [front, List.append_assoc, List.singleton_append, same]
        exact nofun
      · rcases place with ⟨expected, rfl⟩ | ⟨same, found, rfl⟩
        · exact ⟨rfl, .inl ⟨expected, rfl⟩⟩
        · cases found
          exact ⟨rfl, .inr rfl⟩

/-- A semicolon comes where a parenthesis has to be closed. -/
theorem Program.parse_error_position_of_parenthesis :
    ∃ tokens, Token.scan "VAL x = (1;" = .ok tokens ∧
      Program.ofTokens tokens = .error ⟨10, .expected ")" (some ";")⟩ ∧
      ∃ count token, tokens[count]? = some token ∧ token.offset = 10 ∧
        (∃ more program, Program.ofTokens (tokens.take count ++ more) = .ok program) ∧
        ∀ accepted, tokens.take (count + 1) <+: accepted →
          ∀ program, Program.ofTokens accepted ≠ .ok program := by
  have scanned : Token.scan "VAL x = (1;" = .ok
      [⟨.identifier, "VAL", 0⟩, ⟨.identifier, "x", 4⟩, ⟨.operator, "=", 6⟩, ⟨.operator, "(", 8⟩,
        ⟨.integer, "1", 9⟩, ⟨.operator, ";", 10⟩] := by decide +kernel
  refine ⟨_, scanned, rfl, ?_⟩
  rcases Program.parse_error_position scanned rfl with
    ⟨count, _, completable, ⟨_, expected, impossible⟩ | ⟨token, next, refused, place, _⟩⟩
  · cases impossible
  · exact ⟨count, token, next, place.symm, completable, refused⟩

end Plc
