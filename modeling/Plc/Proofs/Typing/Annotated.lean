import Plc.Proofs.Grammar.Numbering
import Plc.Proofs.Typing.Entries

/-! What checking notes. Every expression is visited once: its number is in the table of
types, and a second expression with that number is an error. Variables and functions are
noted where they are named and where they are declared. -/

namespace Plc

open Typing

open Check (Notes)

/-! ## Expressions -/

namespace Typing

theorem findVariable_notes (context : Context) (name : String) :
    Notes .none (findVariable context name) := by
  unfold findVariable
  split
  · exact .pure _
  · exact .throw fun id equal => by cases equal

theorem findFunction_notes (context : Context) (name : String) (arity : Nat) :
    Notes .none (findFunction context name arity) := by
  unfold findFunction
  split
  · exact .pure _
  · exact .throw fun id equal => by cases equal

theorem accessType_notes (context : Context) (node : Node) (name : String) :
    Notes ⟨[node.id], [node.id], []⟩ (accessType context node name) :=
  (findVariable_notes context name).bind_none fun _ =>
    (Notes.recordVariable _ _).bind fun _ => .recordType _ _

end Typing

mutual

/-- An expression is noted after its parts. -/
theorem Expr.check_notes (context : Context) :
    ∀ expression : Expr, Notes (.ofTerms expression.subterms [] []) (expression.check context)
  | .literal node value => (Notes.lift (.literal value)).bind_none fun _ => .recordType _ _
  | .group node inner => by
      unfold Expr.check
      cases inner.isBinary with
      | false => exact .throw fun id equal => by cases equal
      | true =>
          have self : ∀ type, Notes (.ofTerms [.group node inner] [] [])
              (Check.recordType node.id type) := fun type => .recordType _ type
          apply ((inner.check_notes context).bind_terms self).reorder
          · exact List.perm_append_singleton _ _
          · exact .refl _
          · exact .refl _
  | .binary node operator left right => by
      have self : ∀ leftType rightType, Notes (.ofTerms [.binary node operator left right] [] [])
          (do Check.recordType node.id (← operator.type leftType rightType)) :=
        fun leftType rightType => (Notes.lift (.operator operator leftType rightType)).bind_none
          fun _ => .recordType _ _
      apply ((left.check_notes context).bind_terms fun leftType =>
        (right.check_notes context).bind_terms (self leftType)).reorder
      · rw [← List.append_assoc]
        exact List.perm_append_singleton _ _
      · exact .refl _
      · exact .refl _
  | .access node name => accessType_notes context node name
  | .element node name index => by
      have self : ∀ type, Notes (.ofTerms [.element node name index] [] [])
          (do Ty.integer.require type; accessType context node name) := fun type =>
        (Notes.lift (.require _ type)).bind_none fun _ => accessType_notes context node name
      apply ((index.check_notes context).bind_terms self).reorder
      · exact List.perm_append_singleton _ _
      · exact .refl _
      · exact .refl _
  | .call node name arguments => by
      have self : ∀ types, Notes (.ofTerms [.call node name arguments] [] []) (do
          let found ← findFunction context name arguments.length
          requireAll found.parameters types
          Check.recordFunction node.id found
          Check.recordType node.id found.result) := fun types =>
        (findFunction_notes context name arguments.length).bind_none fun _ =>
          (Notes.lift (.requireAll _ _)).bind_none fun _ =>
            (Notes.recordFunction _ _).bind fun _ => .recordType _ _
      apply ((Expr.checkAll_notes context arguments).bind_terms self).reorder
      · exact List.perm_append_singleton _ _
      · exact .refl _
      · exact .refl _
  | .list _ _ => .throw fun id equal => by cases equal

theorem Expr.checkAll_notes (context : Context) :
    ∀ expressions : List Expr,
      Notes (.ofTerms (Expr.subtermsOfAll expressions) [] []) (Expr.checkAll context expressions)
  | [] => .pure _
  | head :: tail =>
      (head.check_notes context).bind_terms fun _ =>
        (Expr.checkAll_notes context tail).bind_done fun _ => .pure _

end

/-! ## Declarations -/

namespace Typing

theorem declare_notes (context : Context) (id : Nat) (declared : Variable) :
    Notes (.ofTerms [] [id] []) (declare context id declared) := by
  unfold declare
  split
  · exact .throw fun id equal => by cases equal
  · have recorded : Notes (.ofTerms [] [id] []) (Check.recordVariable id declared) :=
      .recordVariable id declared
    exact recorded.bind_done fun _ => .pure _

theorem initializerType_notes (context : Context) (name : String) (stated : Option Ty)
    (value : Option Expr) :
    Notes (.ofTerms ((value.map Expr.subterms).getD []) [] [])
      (initializerType context name stated value) := by
  unfold initializerType
  cases value with
  | some value =>
      apply (value.check_notes context).bind_done
      intro actual
      cases stated with
      | some stated => exact (Notes.lift (.require _ _)).bind_none fun _ => .pure _
      | none => exact .pure _
  | none =>
      cases stated with
      | some stated => exact .pure _
      | none => exact .throw fun id equal => by cases equal

theorem elementType_notes (context : Context) (stated : Option Ty) (elements : List Expr) :
    Notes (.ofTerms (Expr.subtermsOfAll elements) [] []) (elementType context stated elements) := by
  induction elements generalizing stated with
  | nil => exact .pure _
  | cons head tail induction =>
      unfold elementType
      apply (head.check_notes context).bind_terms
      intro actual
      cases stated with
      | some stated => exact (Notes.lift (.require _ _)).bind_none fun _ => induction _
      | none => exact induction _

end Typing

/-! ## Statements -/

mutual

theorem Stmt.check_notes (context : Context) : ∀ statement : Stmt,
    Notes (.ofTerms statement.subterms (statement.nested.filterMap Stmt.declaredNumber?) [])
      (statement.check context)
  | .expression value => by
      unfold Stmt.check
      cases value.isCall with
      | false => exact .throw fun id equal => by cases equal
      | true => exact (value.check_notes context).bind_done fun _ => .pure _
  | .declaration id name typeName value => by
      apply (Notes.lift (.ofOptionalName typeName)).bind_none
      intro stated
      have declared := (initializerType_notes context name stated value).bind_terms fun type =>
        declare_notes context id ⟨name, type, true⟩
      rw [List.append_nil] at declared
      exact declared
  | .assignment receiver value => by
      unfold Stmt.check
      cases receiver.isReceiver with
      | false => exact .throw fun id equal => by cases equal
      | true =>
          apply (receiver.check_notes context).bind_terms
          intro target
          apply (value.check_notes context).bind_done
          intro actual
          exact (Notes.lift (.require _ _)).bind_none fun _ => .pure _
  | .conditional condition whenTrue whenFalse => by
      have branches : Notes
          (.ofTerms (Stmt.subtermsOfAll whenTrue ++ Stmt.subtermsOfAll whenFalse)
            ((Stmt.nestedInAll whenTrue ++ Stmt.nestedInAll whenFalse).filterMap
              Stmt.declaredNumber?) [])
          (do
            Stmt.checkAll context.nest whenTrue
            Stmt.checkAll context.nest whenFalse
            return context) := by
        rw [List.filterMap_append]
        exact (Stmt.checkAll_notes context.nest whenTrue).bind_terms fun _ =>
          (Stmt.checkAll_notes context.nest whenFalse).bind_done fun _ => .pure _
      rw [Stmt.subterms, List.append_assoc]
      apply (condition.check_notes context).bind_terms
      intro type
      apply (Notes.lift (.require _ _)).bind_none
      intro _
      split
      · exact .throw fun id equal => by cases equal
      · exact branches
  | .switch condition cases =>
      (condition.check_notes context).bind_terms fun type =>
        (Case.checkAll_notes context type cases).bind_done fun _ => .pure _
  | .loop condition body =>
      (condition.check_notes context).bind_terms fun _ =>
        (Notes.lift (.require _ _)).bind_none fun _ =>
          (Stmt.checkAll_notes context.nest body).bind_done fun _ => .pure _
  | .returns value =>
      (findVariable_notes context "RETURN").bind_none fun _ =>
        (value.check_notes context).bind_done fun _ =>
          (Notes.lift (.require _ _)).bind_none fun _ => .pure _

theorem Stmt.checkAll_notes (context : Context) : ∀ statements : List Stmt,
    Notes (.ofTerms (Stmt.subtermsOfAll statements)
      ((Stmt.nestedInAll statements).filterMap Stmt.declaredNumber?) [])
      (Stmt.checkAll context statements)
  | [] => .pure _
  | head :: tail => by
      rw [Stmt.nestedInAll, List.filterMap_append]
      exact (head.check_notes context).bind_terms fun extended =>
        Stmt.checkAll_notes extended tail

theorem Case.checkAll_notes (context : Context) (type : Ty) : ∀ cases : List Case,
    Notes (.ofTerms (Case.subtermsOfAll cases)
      ((Case.nestedInAll cases).filterMap Stmt.declaredNumber?) [])
      (Case.checkAll context type cases)
  | [] => .pure _
  | .mk value body :: tail => by
      have branch : Notes (.ofTerms (Case.mk value body).subterms
          ((Stmt.nestedInAll body).filterMap Stmt.declaredNumber?) [])
          ((Case.mk value body).check context type tail.isEmpty) := by
        unfold Case.check
        cases value with
        | none =>
            dsimp only
            split
            · exact .throw fun id equal => by cases equal
            · exact Stmt.checkAll_notes context.nest body
        | some value =>
            dsimp only
            split
            · exact .throw fun id equal => by cases equal
            · exact (value.check_notes context).bind_terms fun _ =>
                (Notes.lift (.require _ _)).bind_none fun _ =>
                  Stmt.checkAll_notes context.nest body
      rw [Case.nestedInAll, List.filterMap_append]
      exact branch.bind_terms fun _ => Case.checkAll_notes context type tail

end

/-! ## Programs -/

theorem Global.check_notes (context : Context) (declaration : Global) :
    Notes (.ofTerms declaration.subterms [declaration.id] []) (declaration.check context) := by
  apply (Notes.lift (.ofOptionalName _)).bind_none
  intro stated
  have declares : ∀ type, Notes (.ofTerms [] [declaration.id] [])
      (declare context declaration.id ⟨declaration.name, type, declaration.isMutable⟩) :=
    fun type => declare_notes context declaration.id _
  rw [Global.subterms]
  split
  · rename_i node elements isList
    have list : Notes (.ofTerms (Expr.list node elements).subterms [] [])
        (do Check.recordType node.id (← elementType context stated elements)) := by
      have self : ∀ type, Notes (.ofTerms [.list node elements] [] [])
          (Check.recordType node.id type) := fun type => .recordType _ type
      apply ((elementType_notes context stated elements).bind_terms self).reorder
      · exact List.perm_append_singleton _ _
      · exact .refl _
      · exact .refl _
    have both := list.bind_terms declares
    rw [List.append_nil] at both
    rw [isList]
    simpa using both
  · have both := (initializerType_notes context declaration.name stated
      declaration.value).bind_terms declares
    rw [List.append_nil] at both
    exact both

theorem Procedure.check_notes (context : Context) (procedure : Procedure) :
    Notes (.ofTerms procedure.subterms
      ((Stmt.nestedInAll procedure.body).filterMap Stmt.declaredNumber?) [procedure.id])
      (procedure.check context) := by
  apply (Notes.lift (.signature procedure)).bind_none
  intro signature
  split
  · exact .throw fun id equal => by cases equal
  · rename_i extended _
    have recorded : Notes (.ofTerms [] [] [procedure.id])
        (Check.recordFunction procedure.id signature) := .recordFunction _ _
    apply recorded.bind_terms
    intro _
    apply (Notes.lift (.declareParameters _ _)).bind_none
    intro body
    exact (Stmt.checkAll_notes body procedure.body).bind_done fun _ => .pure _

theorem Typing.foldlM_notes {check : Context → α → Check Context} {terms : α → List Expr}
    {bindings functions : α → List Nat}
    (each : ∀ context declaration, Notes (.ofTerms (terms declaration) (bindings declaration)
      (functions declaration)) (check context declaration))
    (declarations : List α) (context : Context) :
    Notes (.ofTerms (declarations.flatMap terms) (declarations.flatMap bindings)
      (declarations.flatMap functions)) (declarations.foldlM check context) := by
  induction declarations generalizing context with
  | nil => exact .pure _
  | cons head tail induction =>
      rw [List.foldlM_cons]
      exact (each context head).bind_terms induction

/-- The entries that checking a program makes, and when two expressions share a number. -/
theorem Program.check_notes (context : Context) (program : Program) :
    match program.check context with
    | .ok annotations => program.expressionNumbers.Nodup ∧
        (∀ id, id ∈ annotations.typeTable ↔ id ∈ program.expressionNumbers) ∧
        (∀ id, id ∈ annotations.variableTable ↔ id ∈ program.variableNumbers) ∧
        ∀ id, id ∈ annotations.functionTable ↔ id ∈ program.functionNumbers
    | .error error => ∀ id, error = .duplicateType id → ¬program.expressionNumbers.Nodup := by
  let checking : Check Unit := do
    let context ← program.globals.foldlM Global.check context
    let context ← program.procedures.foldlM Procedure.check context
    requireMain context
  have opened : program.check context = (checking .empty).map (·.2) := by
    show (checking .empty).bind _ = _
    cases checking .empty <;> rfl
  have globals := foldlM_notes Global.check_notes program.globals
  have procedures := foldlM_notes Procedure.check_notes program.procedures
  have noted : Notes (.ofTerms program.subterms
      (program.globals.flatMap (fun declaration => [declaration.id]) ++ program.declaredNumbers)
      (program.globals.flatMap (fun _ => []) ++
        program.procedures.flatMap fun procedure => [procedure.id])) checking :=
    (globals context).bind_terms fun middle => (procedures middle).bind_done fun last =>
      Notes.lift (.requireMain last)
  have noFunctions : (program.globals.flatMap fun _ => ([] : List Nat)) = [] :=
    List.flatMap_eq_nil_iff.mpr fun _ _ => rfl
  rw [← List.map_eq_flatMap, ← List.map_eq_flatMap, noFunctions, List.nil_append] at noted
  have ended := noted .empty
  rw [opened]
  split at ended
  · rename_i after ran
    rw [ran]
    refine ⟨ended.1.1, ?_, ?_, ?_⟩
    · intro id
      simpa [Annotations.empty, Program.expressionNumbers, Entries.ofTerms] using
        ended.2.types id
    · intro id
      simpa [Annotations.empty, Program.variableNumbers, Entries.ofTerms] using
        ended.2.bindings id
    · intro id
      simpa [Annotations.empty, Program.functionNumbers, Entries.ofTerms] using
        ended.2.functions id
  · rename_i error failed
    rw [failed]
    intro id isDuplicate distinct
    exact ended id isDuplicate ⟨distinct, by simp [Annotations.empty]⟩

/-- When a program is accepted, whether it was read from a text or not, its expressions
have different numbers and each of them has a type; variables are noted at accesses,
globals and declarations in blocks, and functions at calls and declarations. Expressions
that were read from a text never share a number. -/
theorem Program.check_annotates (context : Context) (program : Program) :
    (∀ annotations, program.check context = .ok annotations →
      program.expressionNumbers.Nodup ∧
      (∀ id, id ∈ annotations.typeTable ↔ id ∈ program.expressionNumbers) ∧
      (∀ id, id ∈ annotations.variableTable ↔ id ∈ program.variableNumbers) ∧
      ∀ id, id ∈ annotations.functionTable ↔ id ∈ program.functionNumbers) ∧
    ∀ tokens, Program.ofTokens tokens = .ok program →
      ∀ id, program.check context ≠ .error (.duplicateType id) := by
  have notes := program.check_notes context
  constructor
  · intro annotations accepted
    rw [accepted] at notes
    exact notes
  · intro tokens parsed id rejected
    rw [rejected] at notes
    rcases Program.numbers_perm_range' parsed with ⟨count, numbered⟩
    have distinct : program.numbers.Nodup := numbered.nodup_iff.mpr List.nodup_range'
    exact notes id rfl (distinct.sublist program.expressionNumbers_sublist)

/-- In a list, an index and a call nothing is missed. -/
theorem Program.check_annotates_of_nesting :
    let text := "LIST l=[1];FUN main():Integer DO LET y=l[0]+main();RETURN y;END"
    ∃ tokens program annotations, Token.scan text = .ok tokens ∧
      Program.ofTokens tokens = .ok program ∧ program.check .standard = .ok annotations ∧
      program.expressionNumbers = [3, 2, 9, 7, 6, 8, 10] ∧
      program.expressionNumbers.Nodup ∧
      (∀ id, id ∈ annotations.typeTable ↔ id ∈ program.expressionNumbers) ∧
      (∀ id, id ∈ annotations.variableTable ↔ id ∈ program.variableNumbers) ∧
      (∀ id, id ∈ annotations.functionTable ↔ id ∈ program.functionNumbers) ∧
      ∀ id, program.check .standard ≠ .error (.duplicateType id) := by
  intro text
  have computed : (do
      let tokens ← (Token.scan text).toOption
      let program ← (Program.ofTokens tokens).toOption
      let _ ← (program.check .standard).toOption
      return program.expressionNumbers) = some [3, 2, 9, 7, 6, 8, 10] := by decide +kernel
  simp only [Option.bind_eq_bind, Option.bind_eq_some_iff, Option.pure_def,
    Option.some.injEq] at computed
  rcases computed with ⟨tokens, scanned, program, parsed, annotations, checked, numbers⟩
  have scanned := eq_ok_of_toOption scanned
  have parsed := eq_ok_of_toOption parsed
  have checked := eq_ok_of_toOption checked
  have annotated := Program.check_annotates .standard program
  rcases annotated.1 annotations checked with ⟨distinct, types, bindings, functions⟩
  exact ⟨tokens, program, annotations, scanned, parsed, checked, numbers, distinct, types,
    bindings, functions, annotated.2 tokens parsed⟩

end Plc
