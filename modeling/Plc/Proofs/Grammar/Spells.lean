import Plc.Proofs.Grammar.Reads
import Plc.Proofs.Grammar.Spellings

/-! Parsers whose results are spelled by the tokens that were read: a parser takes some of the
tokens at the cursor, and with what stood before them they are a spelling of what it gives. -/

namespace Plc

open Spelling

namespace Parser

/-! ## What a parser reads -/

/-- After tokens that are in `given`, those that the parser reads are a spelling of its
result. -/
def Spells (given : Language Token) (spellings : α → Language Token) (parser : Parser α) : Prop :=
  ∀ cursor result after, parser cursor = .ok (result, after) →
    ∃ read, cursor.rest = read ++ after.rest ∧
      ∀ front ∈ given, front ++ read ∈ spellings result

namespace Spells

variable {given : Language Token} {spellings : α → Language Token} {parser : Parser α}

theorem pure {value : α} (included : given ≤ spellings value) :
    Spells given spellings (pure value) := by
  intro cursor result after ran
  cases ran
  refine ⟨[], rfl, fun front member => ?_⟩
  rw [List.append_nil]
  exact included member

theorem throw (error : GrammarError) : Spells given spellings (throw error) := by
  intro cursor result after ran
  cases ran

theorem bind {next : α → Parser β} {wanted : β → Language Token}
    (first : Spells given spellings parser)
    (second : ∀ value, Spells (spellings value) wanted (next value)) :
    Spells given wanted (parser >>= next) := by
  intro cursor result after ran
  rcases bind_eq_ok ran with ⟨value, middle, ran, rest⟩
  rcases first cursor value middle ran with ⟨front, consumed, spelled⟩
  rcases second value middle result after rest with ⟨back, consumedMore, spelledMore⟩
  refine ⟨front ++ back, ?_, fun before member => ?_⟩
  · rw [consumed, consumedMore, List.append_assoc]
  · rw [← List.append_assoc]
    exact spelledMore _ (spelled before member)

theorem beside (alone : Spells 1 spellings parser) (given : Language Token) :
    Spells given (fun result => given * spellings result) parser := by
  intro cursor result after ran
  rcases alone cursor result after ran with ⟨read, consumed, spelled⟩
  exact ⟨read, consumed, fun front member =>
    Language.append_mem_mul member (spelled [] Language.nil_mem_one)⟩

theorem mono {wider : α → Language Token} (spells : Spells given spellings parser)
    (included : ∀ result, spellings result ≤ wider result) : Spells given wider parser := by
  intro cursor result after ran
  rcases spells cursor result after ran with ⟨read, consumed, spelled⟩
  exact ⟨read, consumed, fun front member => included result (spelled front member)⟩

theorem lower {less : Language Token} (spells : Spells given spellings parser)
    (included : less ≤ given) : Spells less spellings parser := by
  intro cursor result after ran
  rcases spells cursor result after ran with ⟨read, consumed, spelled⟩
  exact ⟨read, consumed, fun front member => spelled front (included member)⟩

theorem of_rest_eq (kept : ∀ cursor result after, parser cursor = .ok (result, after) →
    after.rest = cursor.rest) (given : Language Token) :
    Spells given (fun _ => given) parser := by
  intro cursor result after ran
  refine ⟨[], (kept cursor result after ran).symm, fun front member => ?_⟩
  rw [List.append_nil]
  exact member

theorem freshId (given : Language Token) : Spells given (fun _ => given) freshId :=
  of_rest_eq (fun _ _ _ ran => by cases ran; rfl) given

theorem get (given : Language Token) : Spells given (fun _ => given) (get : Parser Cursor) :=
  of_rest_eq (fun _ _ _ ran => by cases ran; rfl) given

theorem nextIs (property : Token → Bool) (given : Language Token) :
    Spells given (fun _ => given) (nextIs property) :=
  of_rest_eq (fun _ _ _ ran => by cases ran; rfl) given

theorem fail (expected : String) : Spells given spellings (fail expected) := by
  intro cursor result after ran
  unfold Parser.fail at ran
  split at ran <;> cases ran

theorem fail_bind (expected : String) (next : α → Parser β) {wanted : β → Language Token} :
    Spells given wanted (Parser.fail expected >>= next) := by
  intro cursor result after ran
  have opened : (Parser.fail expected >>= next) cursor =
      (Parser.fail expected cursor).bind fun pair => next pair.1 pair.2 := rfl
  rw [opened, Parser.fail] at ran
  split at ran <;> cases ran

/-! ### Single tokens -/

theorem take?_bind {property : Token → Bool} {next : Option Token → Parser β}
    {wanted : β → Language Token}
    (present : ∀ token, property token = true →
      Spells (given * one (· = token)) wanted (next (some token)))
    (absent : Spells given wanted (next none)) :
    Spells given wanted (Parser.take? property >>= next) := by
  intro cursor result after ran
  rcases next_cases property cursor.rest with stops | ⟨token, rest, comes, fits⟩
  · apply absent cursor result after
    have opened : (Parser.take? property >>= next).run cursor = (next none).run cursor := by
      rw [run_bind, run_take?_of_stops stops]
      rfl
    exact opened.symm.trans ran
  · have taken : (Parser.take? property >>= next).run cursor = _ :=
      run_take?_bind_of_fits comes fits
    have opened := taken.symm.trans ran
    rcases present token fits _ result after opened with ⟨read, consumed, spelled⟩
    refine ⟨token :: read, by rw [comes]; exact congrArg (token :: ·) consumed, ?_⟩
    intro front member
    rw [List.append_cons]
    exact spelled _ (Language.append_mem_mul member ⟨token, rfl, rfl⟩)

theorem take_bind {expected : String} {property : Token → Bool} {next : Token → Parser β}
    {wanted : β → Language Token}
    (present : ∀ token, property token = true →
      Spells (given * one (· = token)) wanted (next token)) :
    Spells given wanted (take expected property >>= next) := by
  rw [take, bind_assoc]
  apply take?_bind
  · intro token fits
    rw [pure_bind]
    exact present token fits
  · exact fail_bind expected next

theorem symbol (literal : String) (given : Language Token) :
    Spells given (fun _ => given * Spelling.symbol literal) (symbol literal) := by
  rw [Parser.symbol, ← bind_pure (Parser.take literal _)]
  exact take_bind fun token fits => pure (mul_le_mul_right (one_le_one fits) _)

theorem word (literal : String) (given : Language Token) :
    Spells given (fun _ => given * Spelling.word literal) (word literal) := by
  rw [Parser.word, ← bind_pure (Parser.take literal _)]
  exact take_bind fun token fits => pure (mul_le_mul_right (one_le_one fits) _)

theorem name (given : Language Token) :
    Spells given (fun name => given * identifier name) name :=
  take_bind fun _ fits => pure (mul_le_mul_right (one_le_one ⟨beq_iff_eq.mp fits, rfl⟩) _)

theorem skip {property : Token → Bool} {whenTrue whenFalse : Parser α}
    (present : Spells (given * one fun token => property token = true) spellings whenTrue)
    (absent : Spells given spellings whenFalse) :
    Spells given spellings (do
      if ← (do return (← Parser.take? property).isSome) then whenTrue else whenFalse) := by
  rw [bind_assoc]
  apply take?_bind
  · intro token fits
    rw [pure_bind]
    exact present.lower (mul_le_mul_right (one_le_one fits) _)
  · rw [pure_bind]
    exact absent

theorem skipped (literal : String) (given : Language Token) :
    Spells given (fun _ => given * (1 + Spelling.symbol literal)) (skipSymbol literal) := by
  apply take?_bind
  · intro token fits
    exact pure (mul_le_mul_right ((one_le_one fits).trans le_add_self) _)
  · apply pure
    calc given = given * 1 := (mul_one given).symm
      _ ≤ _ := mul_le_mul_right le_self_add given

/-! ### Parsers made of others -/

theorem ite {condition : Bool} {whenTrue whenFalse : Parser α}
    (trueSpells : Spells given spellings whenTrue)
    (falseSpells : Spells given spellings whenFalse) :
    Spells given spellings (if condition then whenTrue else whenFalse) := by
  cases condition <;> assumption

theorem after? (literal : String) (item : Spells 1 spellings parser) (given : Language Token) :
    Spells given (fun result => given * after literal (result.map spellings))
      (after? literal parser) := by
  apply skip
  · apply (item.beside _).bind
    intro result
    exact pure (mul_assoc _ _ _).le
  · exact pure (mul_one given).ge

theorem typeName? (given : Language Token) :
    Spells given (fun typeName => given * typed typeName) typeName? := by
  have named : Spells 1 identifier Parser.name := (name 1).mono fun _ => (one_mul _).le
  exact after? ":" named given

theorem many {item? : Parser (Option α)}
    (item : Spells 1 (fun found => found.elim 1 spellings) item?) :
    Spells 1 (fun results => (results.map spellings).prod) (many item?) := by
  have upTo : ∀ count, Spells 1 (fun results => (results.map spellings).prod)
      (manyUpTo item? count) := by
    intro count
    induction count with
    | zero => exact pure le_rfl
    | succ count induction =>
        apply item.bind
        intro found
        cases found with
        | none => exact pure le_rfl
        | some first => exact (induction.beside (spellings first)).bind fun _ => pure le_rfl
  exact (get 1).bind fun cursor => upTo cursor.rest.length

theorem separated (close : String) (item : Spells 1 spellings parser) :
    Spells 1 (fun results => listed (results.map spellings)) (separated close parser) := by
  apply (nextIs _ 1).bind
  intro closed
  cases closed with
  | true => exact pure le_rfl
  | false =>
      apply item.bind
      intro first
      have others : Spells 1
          (fun results => (results.map fun result => Spelling.symbol "," * spellings result).prod)
          (Parser.many do
            if ← Parser.skipSymbol "," then return some (← parser) else return none) := by
        apply many
        apply skip
        · rw [one_mul]
          exact (item.beside _).bind fun _ => pure le_rfl
        · exact pure le_rfl
      apply (others.beside (spellings first)).bind
      intro rest
      apply pure
      rw [List.map_cons, listed, followed_eq_prod, List.map_map]
      exact le_rfl

end Spells

end Parser

end Plc
