import Mathlib.Data.List.Perm.Basic
import Plc.Proofs.Program.Numbers

/-! The order in which the parts of a program are numbered: a declaration before what it
holds, an expression after its parts, and otherwise from left to right. -/

namespace Plc

/-! ## Expressions -/

mutual

/-- The numbers of an expression, each after those of its parts. -/
def Expr.succession : Expr → List Nat
  | .literal node _ | .access node _ => [node.id]
  | .group node inner => inner.succession ++ [node.id]
  | .binary node _ left right => left.succession ++ right.succession ++ [node.id]
  | .element node _ index => index.succession ++ [node.id]
  | .call node _ arguments => Expr.successionOfAll arguments ++ [node.id]
  | .list node elements => Expr.successionOfAll elements ++ [node.id]

def Expr.successionOfAll : List Expr → List Nat
  | [] => []
  | head :: tail => head.succession ++ Expr.successionOfAll tail

end

def Expr.successionOf? (value : Option Expr) : List Nat :=
  (value.map Expr.succession).getD []

theorem Expr.successionOfAll_eq_flatMap (expressions : List Expr) :
    Expr.successionOfAll expressions = expressions.flatMap Expr.succession := by
  induction expressions with
  | nil => rfl
  | cons head tail induction => rw [Expr.successionOfAll, induction, List.flatMap_cons]

private theorem completed_perm {parts numbers : List Nat} (same : parts.Perm numbers) (id : Nat) :
    (parts ++ [id]).Perm (id :: numbers) :=
  (List.perm_append_singleton id parts).trans (same.cons id)

mutual

theorem Expr.succession_perm : ∀ expression : Expr,
    expression.succession.Perm expression.numbers
  | .literal _ _ | .access _ _ => .refl _
  | .group _ inner => completed_perm inner.succession_perm _
  | .binary node operator left right => by
      have parts := left.succession_perm.append right.succession_perm
      rw [Expr.numbers, Expr.numbers, ← List.map_append] at parts
      exact completed_perm parts node.id
  | .element _ _ index => completed_perm index.succession_perm _
  | .call _ _ arguments => completed_perm (Expr.successionOfAll_perm arguments) _
  | .list _ elements => completed_perm (Expr.successionOfAll_perm elements) _

theorem Expr.successionOfAll_perm : ∀ expressions : List Expr,
    (Expr.successionOfAll expressions).Perm (Expr.numbersOfAll expressions)
  | [] => .refl _
  | head :: tail => by
      rw [Expr.numbersOfAll_eq_flatMap, List.flatMap_cons, ← Expr.numbersOfAll_eq_flatMap]
      exact head.succession_perm.append (Expr.successionOfAll_perm tail)

end

theorem Expr.successionOf?_perm (value : Option Expr) :
    (Expr.successionOf? value).Perm (Expr.numbersOf? value) := by
  cases value with
  | none => exact .refl _
  | some value => exact value.succession_perm

/-! ## Statements -/

mutual

def Stmt.succession : Stmt → List Nat
  | .expression value | .returns value => value.succession
  | .declaration id _ _ value => id :: Expr.successionOf? value
  | .assignment receiver value => receiver.succession ++ value.succession
  | .conditional condition whenTrue whenFalse =>
      condition.succession ++ Stmt.successionOfAll whenTrue ++ Stmt.successionOfAll whenFalse
  | .switch condition cases => condition.succession ++ Case.successionOfAll cases
  | .loop condition body => condition.succession ++ Stmt.successionOfAll body

def Stmt.successionOfAll : List Stmt → List Nat
  | [] => []
  | head :: tail => head.succession ++ Stmt.successionOfAll tail

def Case.succession : Case → List Nat
  | .mk value body => Expr.successionOf? value ++ Stmt.successionOfAll body

def Case.successionOfAll : List Case → List Nat
  | [] => []
  | head :: tail => head.succession ++ Case.successionOfAll tail

end

theorem Stmt.successionOfAll_eq_flatMap (statements : List Stmt) :
    Stmt.successionOfAll statements = statements.flatMap Stmt.succession := by
  induction statements with
  | nil => rfl
  | cons head tail induction => rw [Stmt.successionOfAll, induction, List.flatMap_cons]

theorem Case.successionOfAll_eq_flatMap (cases : List Case) :
    Case.successionOfAll cases = cases.flatMap Case.succession := by
  induction cases with
  | nil => rfl
  | cons head tail induction => rw [Case.successionOfAll, induction, List.flatMap_cons]

mutual

theorem Stmt.succession_perm : ∀ statement : Stmt, statement.succession.Perm statement.numbers
  | .expression value => by
      rw [Stmt.numbers_expression]
      exact value.succession_perm
  | .declaration id _ _ value =>
      ((Expr.successionOf?_perm value).cons id).trans (List.perm_append_singleton id _).symm
  | .assignment receiver value => by
      rw [Stmt.numbers_assignment]
      exact receiver.succession_perm.append value.succession_perm
  | .conditional condition whenTrue whenFalse =>
      ((condition.succession_perm.append (Stmt.successionOfAll_perm whenTrue)).append
        (Stmt.successionOfAll_perm whenFalse)).trans (Stmt.numbers_conditional _ _ _).symm
  | .switch condition cases => by
      rw [Stmt.numbers_switch]
      exact condition.succession_perm.append (Case.successionOfAll_perm cases)
  | .loop condition body => by
      rw [Stmt.numbers_loop]
      exact condition.succession_perm.append (Stmt.successionOfAll_perm body)
  | .returns value => by
      rw [Stmt.numbers_returns]
      exact value.succession_perm

theorem Stmt.successionOfAll_perm : ∀ statements : List Stmt,
    (Stmt.successionOfAll statements).Perm (Stmt.numbersOfAll statements)
  | [] => .refl _
  | head :: tail => by
      apply (head.succession_perm.append (Stmt.successionOfAll_perm tail)).trans
      apply ((Stmt.numbersOfAll_perm tail).append_left _).trans
      exact (Stmt.numbersOfAll_perm (head :: tail)).symm

theorem Case.succession_perm : ∀ branch : Case, branch.succession.Perm branch.numbers
  | .mk value body =>
      (Expr.successionOf?_perm value).append (Stmt.successionOfAll_perm body)

theorem Case.successionOfAll_perm : ∀ cases : List Case,
    (Case.successionOfAll cases).Perm (Case.numbersOfAll cases)
  | [] => .refl _
  | head :: tail => by
      apply (head.succession_perm.append (Case.successionOfAll_perm tail)).trans
      apply ((Case.numbersOfAll_perm tail).append_left _).trans
      exact (Case.numbersOfAll_perm (head :: tail)).symm

end

/-! ## Programs -/

def Global.succession (declaration : Global) : List Nat :=
  declaration.id :: Expr.successionOf? declaration.value

def Procedure.succession (procedure : Procedure) : List Nat :=
  procedure.id :: Stmt.successionOfAll procedure.body

def Program.succession (program : Program) : List Nat :=
  program.globals.flatMap Global.succession ++ program.procedures.flatMap Procedure.succession

theorem Program.succession_perm (program : Program) :
    program.succession.Perm program.numbers := by
  apply List.Perm.append
  · apply List.Perm.flatMap_left
    exact fun declaration _ => (Expr.successionOf?_perm declaration.value).cons _
  · apply List.Perm.flatMap_left
    exact fun procedure _ => (Stmt.successionOfAll_perm procedure.body).cons _

/-! ## What the numbers of a part are among -/

theorem Expr.successionOfAll_sublist {part : Expr} {expressions : List Expr}
    (each : ∀ whole ∈ expressions, part ∈ whole.subterms →
      part.succession.Sublist whole.succession)
    (member : part ∈ Expr.subtermsOfAll expressions) :
    part.succession.Sublist (Expr.successionOfAll expressions) := by
  induction expressions with
  | nil => cases member
  | cons head tail induction =>
      rcases List.forall_mem_cons.mp each with ⟨first, others⟩
      rcases List.mem_append.mp member with inside | later
      · exact (first inside).trans (List.sublist_append_left _ _)
      · exact (induction others later).trans (List.sublist_append_right _ _)

theorem Expr.succession_sublist {part : Expr} : ∀ {whole : Expr}, part ∈ whole.subterms →
    part.succession.Sublist whole.succession
  | .literal _ _, member | .access _ _, member => by
      cases List.mem_singleton.mp member
      exact .refl _
  | .group _ inner, member | .element _ _ inner, member => by
      rcases List.mem_cons.mp member with rfl | member
      · exact .refl _
      · exact (Expr.succession_sublist member).trans (List.sublist_append_left _ _)
  | .binary _ _ left right, member => by
      rcases List.mem_cons.mp member with rfl | member
      · exact .refl _
      · apply List.Sublist.trans _ (List.sublist_append_left _ _)
        rcases List.mem_append.mp member with member | member
        · exact (Expr.succession_sublist member).trans (List.sublist_append_left _ _)
        · exact (Expr.succession_sublist member).trans (List.sublist_append_right _ _)
  | .call _ _ parts, member | .list _ parts, member => by
      rcases List.mem_cons.mp member with rfl | member
      · exact .refl _
      · exact (Expr.successionOfAll_sublist (fun whole _ => Expr.succession_sublist)
          member).trans (List.sublist_append_left _ _)

/-- The numbers of the expressions and of the statements are among those given, in the same
order. -/
structure Numbered (numbers : List Nat) (terms : List Expr) (statements : List Stmt) : Prop where
  terms : ∀ term ∈ terms, term.succession.Sublist numbers
  statements : ∀ statement ∈ statements, statement.succession.Sublist numbers

namespace Numbered

variable {numbers others : List Nat} {terms otherTerms : List Expr}
  {statements otherStatements : List Stmt}

theorem append (left : Numbered numbers terms statements)
    (right : Numbered others otherTerms otherStatements) :
    Numbered (numbers ++ others) (terms ++ otherTerms) (statements ++ otherStatements) where
  terms term member := by
    rcases List.mem_append.mp member with member | member
    · exact (left.terms term member).trans (List.sublist_append_left _ _)
    · exact (right.terms term member).trans (List.sublist_append_right _ _)
  statements statement member := by
    rcases List.mem_append.mp member with member | member
    · exact (left.statements statement member).trans (List.sublist_append_left _ _)
    · exact (right.statements statement member).trans (List.sublist_append_right _ _)

theorem none : Numbered numbers [] [] :=
  ⟨fun _ member => absurd member List.not_mem_nil, fun _ member => absurd member List.not_mem_nil⟩

theorem expression (value : Expr) : Numbered value.succession value.subterms [] :=
  ⟨fun _ => Expr.succession_sublist, fun _ member => absurd member List.not_mem_nil⟩

theorem value? (value : Option Expr) :
    Numbered (Expr.successionOf? value) ((value.map Expr.subterms).getD []) [] := by
  cases value with
  | none => exact .none
  | some value => exact .expression value

theorem self {statement : Stmt} (parts : Numbered numbers terms statements)
    (same : statement.succession = numbers) :
    Numbered numbers terms (statement :: statements) where
  terms := parts.terms
  statements other member := by
    rcases List.mem_cons.mp member with rfl | member
    · exact same ▸ .refl _
    · exact parts.statements other member

end Numbered

mutual

theorem Stmt.numbered : ∀ statement : Stmt,
    Numbered statement.succession statement.subterms statement.nested
  | .expression value | .returns value => (Numbered.expression value).self rfl
  | .declaration id name typeName value => by
      have parts := Numbered.value? value
      exact Numbered.self ⟨fun term member => (parts.terms term member).cons id,
        fun _ member => absurd member List.not_mem_nil⟩ rfl
  | .assignment receiver value =>
      ((Numbered.expression receiver).append (.expression value)).self rfl
  | .conditional condition whenTrue whenFalse =>
      (((Numbered.expression condition).append (Stmt.allNumbered whenTrue)).append
        (Stmt.allNumbered whenFalse)).self rfl
  | .switch condition cases =>
      ((Numbered.expression condition).append (Case.allNumbered cases)).self rfl
  | .loop condition body =>
      ((Numbered.expression condition).append (Stmt.allNumbered body)).self rfl

theorem Stmt.allNumbered : ∀ statements : List Stmt,
    Numbered (Stmt.successionOfAll statements) (Stmt.subtermsOfAll statements)
      (Stmt.nestedInAll statements)
  | [] => .none
  | head :: tail => head.numbered.append (Stmt.allNumbered tail)

theorem Case.allNumbered : ∀ cases : List Case,
    Numbered (Case.successionOfAll cases) (Case.subtermsOfAll cases) (Case.nestedInAll cases)
  | [] => .none
  | .mk value body :: tail =>
      ((Numbered.value? value).append (Stmt.allNumbered body)).append (Case.allNumbered tail)

end

/-! ## Parts and wholes -/

/-- When numbers only grow, an expression has a larger number than its parts. -/
theorem Expr.number_lt_of_sorted {expression : Expr}
    (sorted : expression.succession.Pairwise (· < ·)) :
    ∀ part ∈ expression.subterms.tail, part.node.id < expression.node.id := by
  have last : ∀ {parts : List Nat} {terms : List Expr} {id : Nat},
      (parts ++ [id]).Pairwise (· < ·) → parts.Perm (terms.map (·.node.id)) →
        ∀ part ∈ terms, part.node.id < id := by
    intro parts terms id sorted same part member
    have inParts : part.node.id ∈ parts := same.mem_iff.mpr (List.mem_map_of_mem member)
    exact (List.pairwise_append.mp sorted).2.2 _ inParts id (List.mem_singleton_self id)
  cases expression with
  | literal node value | access node name => exact fun _ member => by cases member
  | group node inner | element node name inner => exact last sorted inner.succession_perm
  | binary node operator left right =>
      have parts := left.succession_perm.append right.succession_perm
      rw [Expr.numbers, Expr.numbers, ← List.map_append] at parts
      exact last sorted parts
  | call node name parts | list node parts => exact last sorted (Expr.successionOfAll_perm parts)

end Plc
