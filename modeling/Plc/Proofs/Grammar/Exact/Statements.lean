import Plc.Proofs.Grammar.Exact.Expressions
import Plc.Proofs.Grammar.Statements

/-! Statements and blocks end where they should. -/

namespace Plc.Parser

open Grammar

variable {ι : Type} {limit : Nat} {bound : ι → Nat}

/-! ## Parts of statements -/

theorem name_exact : Exact limit Parser.name .name bound fun _ => Parser.name :=
  (Exact.take _ Form.viable_name).last Token.literal

theorem typeName?_exact : Exact limit typeName? .typeName bound fun _ => typeName? :=
  name_exact.after?

theorem value_exact : Exact limit Parser.expression .expression bound fun _ => Parser.expression :=
  expression_exact.rule

theorem value?_exact :
    Exact limit (after? "=" Parser.expression) (.after "=" .expression) bound fun _ =>
      after? "=" Parser.expression :=
  value_exact.after?

/-! ## Simple statements -/

theorem declaration_exact :
    Exact limit Parser.declaration .declaration bound fun _ => Parser.declaration := by
  refine .freshId fun id => name_exact.bind (fun name => ?_) (by simp)
  refine typeName?_exact.bind (fun typeName => ?_) (by simp)
  exact value?_exact.bind (fun value => (Exact.symbol ";").last _) (by simp)

theorem returns_exact : Exact limit Parser.returns .returns bound fun _ => Parser.returns :=
  value_exact.bind (fun value => (Exact.symbol ";").last _) (by simp)

theorem simple_exact : Exact limit Parser.simple .simple bound fun _ => Parser.simple := by
  refine value_exact.bind (fun first => ?_) (by simp)
  refine value?_exact.bind (fun value => ?_) (by simp)
  cases value with
  | none => exact (Exact.symbol ";").last fun _ => Stmt.expression first
  | some value => exact (Exact.symbol ";").last fun _ => Stmt.assignment first value

/-! ## Statements with blocks -/

section

variable {block : Parser (List Stmt)} {blocks : ι → Parser (List Stmt)}

abbrev ExactBlocks (limit : Nat) (block : Parser (List Stmt)) (bound : ι → Nat)
    (blocks : ι → Parser (List Stmt)) : Prop :=
  Exact limit block (rules .block) bound blocks

theorem loop_exact (holds : ExactBlocks limit block bound blocks) :
    Exact limit (Parser.loop block) .loop bound fun index => Parser.loop (blocks index) := by
  have body : Exact limit block .block bound blocks := holds.rule
  refine value_exact.bind (fun condition => ?_) (by simp)
  refine (Exact.word "DO").bind (fun _ => ?_) (by simp)
  exact body.bind (fun body => (Exact.word "END").last _) (by simp)

theorem conditional_exact (holds : ExactBlocks limit block bound blocks) :
    Exact limit (Parser.conditional block) .conditional bound fun index =>
      Parser.conditional (blocks index) := by
  have body : Exact limit block .block bound blocks := holds.rule
  have whenFalse : Exact limit (do if ← skipWord "ELSE" then block else return [])
      (.orEmpty (.skip (.word "ELSE") .block)) bound fun index =>
        (do if ← skipWord "ELSE" then blocks index else return []) :=
    .skip rfl body.pred (.pure _ _)
  simp only [conditional_eq]
  refine value_exact.bind (fun condition => ?_) (by simp)
  refine (Exact.word "DO").bind (fun _ => ?_) (by simp)
  refine body.bind (fun whenTrue => ?_) (by simp)
  exact whenFalse.bind (fun whenFalse => (Exact.word "END").last _) (by simp)

theorem case?_exact (holds : ExactBlocks limit block bound blocks) :
    ExactItem limit (case? block) .case (·.isWord "CASE") bound fun index =>
      case? (blocks index) := by
  have body : Exact (limit - 1) block .block (fun index => bound index - 1) blocks :=
    holds.pred.rule
  apply ExactItem.skip rfl
  refine value_exact.bind (fun value => ?_) (by simp)
  exact (Exact.symbol ":").bind (fun _ => body.last _) (by simp)

theorem switch_exact (holds : ExactBlocks limit block bound blocks) :
    Exact limit (Parser.switch block) .switch bound fun index => Parser.switch (blocks index) := by
  have body : Exact limit block .block bound blocks := holds.rule
  refine value_exact.bind (fun condition => ?_) (by simp)
  refine (Exact.many (case?_exact holds) rfl).bind (fun cases => ?_) (by simp)
  refine (Exact.word "DEFAULT").bind (fun _ => ?_) (by simp)
  refine (Exact.optional rfl).bind (fun _ => ?_) (by simp)
  exact body.bind (fun default => (Exact.word "END").last _) (by simp)

/-! ## Statements -/

theorem statement_exactAt {cursor : Cursor} (within : cursor.Within (limit + 1))
    (goesOn : Stops (·.any endsBlock) cursor.rest)
    (holds : ExactBlocks limit block bound blocks) :
    (Parser.statement block).ExactAt cursor (rules .statement) (fun index => bound index + 1)
      fun index => Parser.statement (blocks index) := by
  refine .skip within rfl declaration_exact fun notLet => .skip within rfl
    (conditional_exact holds) fun notIf => .skip within rfl
    (switch_exact holds) fun notSwitch => .skip within rfl
    (loop_exact holds) fun notWhile => .skip within rfl
    returns_exact fun notReturn => ?_
  exact .guarded (simple_exact cursor within) rfl
    (not_keyword_of_stops goesOn notLet notIf notSwitch notWhile notReturn) Form.viable_simple

theorem run_statement?_of_stops {cursor : Cursor}
    (stops : Stops (·.any (!endsBlock ·)) cursor.rest) :
    (statement? block).run cursor = .ok (none, cursor) := by
  have ended : cursor.rest.head?.any (!endsBlock ·) = false := stops
  rw [statement?, run_nextIs_bind, ended]
  rfl

theorem run_statement?_of_next {cursor : Cursor}
    (goesOn : cursor.rest.head?.any (!endsBlock ·) = true) :
    (statement? block).run cursor = (do return some (← Parser.statement block)).run cursor := by
  rw [statement?, run_nextIs_bind, goesOn]
  rfl

theorem statement?_exact (holds : ExactBlocks limit block bound blocks) :
    ExactItem (limit + 1) (statement? block) (.rule .statement id) (!endsBlock ·)
      (fun index => bound index + 1) fun index => statement? (blocks index) := by
  refine .rule ⟨fun _ => run_statement?_of_stops, fun _ _ => run_statement?_of_stops,
    fun cursor within enters => ?_⟩
  have goesOn : cursor.rest.head?.any (!endsBlock ·) = true := Bool.ne_false_iff.mp enters
  have opened : Stops (·.any endsBlock) cursor.rest := by
    rcases (Option.any_eq_true _ _).mp goesOn with ⟨token, next, begins⟩
    rw [Stops, next]
    exact Bool.not_eq_true' _ |>.mp begins
  refine ((statement_exactAt within opened holds).last some).congr (run_statement?_of_next goesOn)
    fun index rest enough same => ⟨index, enough, run_statement?_of_next ?_⟩
  rw [same]
  exact goesOn

end

/-! ## Blocks -/

theorem run_blockUpTo_of_nil (depth : Nat) {cursor : Cursor} (empty : cursor.rest = []) :
    (blockUpTo depth).run cursor = .ok ([], cursor) := by
  cases depth with
  | zero => rfl
  | succ depth =>
      have stops : Stops (·.any (!endsBlock ·)) cursor.rest := by
        rw [empty]
        rfl
      exact run_manyUpTo_of_none (run_statement?_of_stops stops) cursor.rest.length

theorem blockUpTo_exact (depth : Nat) : ExactBlocks depth (blockUpTo depth) id blockUpTo := by
  refine exact_upTo (fun depth cursor empty => ?_) (fun cursor within => ?_)
    (fun depth holds => .many (statement?_exact holds) rfl) depth
  · rw [run_blockUpTo_of_nil depth empty, run_blockUpTo_of_nil 0 empty]
  · have empty := within.rest_eq_nil
    refine ⟨.done, rfl, rfl, fun depth rest _ same => run_blockUpTo_of_nil depth ?_⟩
    rw [empty] at same
    exact List.head?_eq_none_iff.mp same

theorem block_exact : Exact limit Parser.block .block bound fun _ => Parser.block := by
  have holds : ExactBlocks limit Parser.block bound fun _ => Parser.block :=
    .ofUpTo blockUpTo_exact fun _ => rfl
  exact holds.rule

end Plc.Parser
