import Plc.Proofs.Soundness.Fragment
import Plc.Proofs.Typing.Program

/-! What the values that a function returns have to fit. The result of a function is a
variable called `RETURN` to the checker, so a variable of that name that is declared in
a block of the body takes its place until the block ends. -/

namespace Plc

open Typing

/-! ## Returned values -/

/-- The innermost variable called `RETURN` that is declared before the next statement of
the block, when `shadow` is the one before this. -/
def Stmt.shadowing (shadow : Option Declaration) : Stmt → Option Declaration
  | .declaration _ name typeName value =>
      if name = "RETURN" then some (.plain typeName value) else shadow
  | _ => shadow

mutual

/-- The values that a statement returns at any depth, each with the innermost variable
called `RETURN` that is declared around it. -/
def Stmt.returned (shadow : Option Declaration) : Stmt → List (Option Declaration × Expr)
  | .conditional _ whenTrue whenFalse =>
      Stmt.returnedInAll shadow whenTrue ++ Stmt.returnedInAll shadow whenFalse
  | .switch _ cases => Case.returnedInAll shadow cases
  | .loop _ body => Stmt.returnedInAll shadow body
  | .returns value => [(shadow, value)]
  | _ => []

def Stmt.returnedInAll (shadow : Option Declaration) :
    List Stmt → List (Option Declaration × Expr)
  | [] => []
  | head :: tail => head.returned shadow ++ Stmt.returnedInAll (head.shadowing shadow) tail

def Case.returnedInAll (shadow : Option Declaration) :
    List Case → List (Option Declaration × Expr)
  | [] => []
  | .mk _ body :: tail => Stmt.returnedInAll shadow body ++ Case.returnedInAll shadow tail

end

def Procedure.returned (procedure : Procedure) : List (Option Declaration × Expr) :=
  Stmt.returnedInAll none procedure.body

mutual

theorem Stmt.mem_nested_iff (shadow : Option Declaration) (value : Expr) (statement : Stmt) :
    Stmt.returns value ∈ statement.nested ↔
      ∃ inner, (inner, value) ∈ statement.returned shadow := by
  cases statement with
  | expression _ | declaration _ _ _ _ | assignment _ _ => simp [Stmt.nested, Stmt.returned]
  | conditional condition whenTrue whenFalse =>
      simp [Stmt.nested, Stmt.returned, Stmt.mem_nestedInAll_iff shadow value whenTrue,
        Stmt.mem_nestedInAll_iff shadow value whenFalse, exists_or]
  | switch condition cases =>
      simp [Stmt.nested, Stmt.returned, Case.mem_nestedInAll_iff shadow value cases]
  | loop condition body =>
      simp [Stmt.nested, Stmt.returned, Stmt.mem_nestedInAll_iff shadow value body]
  | returns value => simp [Stmt.nested, Stmt.returned]

theorem Stmt.mem_nestedInAll_iff (shadow : Option Declaration) (value : Expr)
    (statements : List Stmt) :
    Stmt.returns value ∈ Stmt.nestedInAll statements ↔
      ∃ inner, (inner, value) ∈ Stmt.returnedInAll shadow statements := by
  cases statements with
  | nil => simp [Stmt.nestedInAll, Stmt.returnedInAll]
  | cons head tail =>
      simp [Stmt.nestedInAll, Stmt.returnedInAll, Stmt.mem_nested_iff shadow value head,
        Stmt.mem_nestedInAll_iff (head.shadowing shadow) value tail, exists_or]

theorem Case.mem_nestedInAll_iff (shadow : Option Declaration) (value : Expr)
    (cases : List Case) :
    Stmt.returns value ∈ Case.nestedInAll cases ↔
      ∃ inner, (inner, value) ∈ Case.returnedInAll shadow cases := by
  cases cases with
  | nil => simp [Case.nestedInAll, Case.returnedInAll]
  | cons head tail =>
      cases head with
      | mk tested body =>
          simp [Case.nestedInAll, Case.returnedInAll, Stmt.mem_nestedInAll_iff shadow value body,
            Case.mem_nestedInAll_iff shadow value tail, exists_or]

end

/-- The variable is the given one, or it is declared by one of the statements. -/
def Declaration.IsAmong (statements : List Stmt) (shadow inner : Option Declaration) : Prop :=
  inner = shadow ∨ ∃ id typeName first, inner = some (.plain typeName first) ∧
    Stmt.declaration id "RETURN" typeName first ∈ statements

theorem Declaration.IsAmong.mono {statements others : List Stmt}
    {shadow inner : Option Declaration}
    (among : Declaration.IsAmong statements shadow inner) (included : statements ⊆ others) :
    Declaration.IsAmong others shadow inner := by
  rcases among with same | ⟨id, typeName, first, declared, member⟩
  · exact .inl same
  · exact .inr ⟨id, typeName, first, declared, included member⟩

theorem Stmt.shadowing_isAmong (shadow : Option Declaration) (statement : Stmt) :
    Declaration.IsAmong statement.nested shadow (statement.shadowing shadow) := by
  cases statement with
  | declaration id name typeName value =>
      rw [Stmt.shadowing, Stmt.nested]
      split
      · rename_i same
        subst same
        exact .inr ⟨id, typeName, value, rfl, List.mem_singleton_self _⟩
      · exact .inl rfl
  | _ => exact .inl rfl

mutual

theorem Stmt.returned_isAmong {shadow inner : Option Declaration} {value : Expr}
    (statement : Stmt) (member : (inner, value) ∈ statement.returned shadow) :
    Declaration.IsAmong statement.nested shadow inner := by
  cases statement with
  | expression _ | declaration _ _ _ _ | assignment _ _ => cases member
  | conditional condition whenTrue whenFalse =>
      rcases List.mem_append.mp member with member | member
      · exact (Stmt.returnedInAll_isAmong whenTrue member).mono
          (List.Subset.trans (List.subset_append_left _ _) (List.subset_cons_self _ _))
      · exact (Stmt.returnedInAll_isAmong whenFalse member).mono
          (List.Subset.trans (List.subset_append_right _ _) (List.subset_cons_self _ _))
  | switch condition cases =>
      exact (Case.returnedInAll_isAmong cases member).mono (List.subset_cons_self _ _)
  | loop condition body =>
      exact (Stmt.returnedInAll_isAmong body member).mono (List.subset_cons_self _ _)
  | returns value =>
      cases List.mem_singleton.mp member
      exact .inl rfl

theorem Stmt.returnedInAll_isAmong {shadow inner : Option Declaration} {value : Expr}
    (statements : List Stmt) (member : (inner, value) ∈ Stmt.returnedInAll shadow statements) :
    Declaration.IsAmong (Stmt.nestedInAll statements) shadow inner := by
  cases statements with
  | nil => cases member
  | cons head tail =>
      rcases List.mem_append.mp member with member | member
      · exact (Stmt.returned_isAmong head member).mono (List.subset_append_left _ _)
      · rcases Stmt.returnedInAll_isAmong tail member with same | declared
        · rw [same]
          exact (head.shadowing_isAmong shadow).mono (List.subset_append_left _ _)
        · exact Declaration.IsAmong.mono (.inr declared) (List.subset_append_right _ _)

theorem Case.returnedInAll_isAmong {shadow inner : Option Declaration} {value : Expr}
    (cases : List Case) (member : (inner, value) ∈ Case.returnedInAll shadow cases) :
    Declaration.IsAmong (Case.nestedInAll cases) shadow inner := by
  cases cases with
  | nil => cases member
  | cons head tail =>
      rcases head with ⟨tested, body⟩
      rcases List.mem_append.mp member with member | member
      · exact (Stmt.returnedInAll_isAmong body member).mono (List.subset_append_left _ _)
      · exact (Case.returnedInAll_isAmong tail member).mono (List.subset_append_right _ _)

end

/-! ## Expected types -/

def Procedure.resultType? (procedure : Procedure) : Option Ty :=
  match procedure.resultTypeName with
  | some typeName => Ty.ofName? typeName
  | none => some .nil

/-- The type that a returned value has to fit: that of the variable that takes the place
of the result, if there is one, or else that of the result. -/
def Program.expectedType (program : Program) (annotations : Annotations)
    (procedure : Procedure) : Option Declaration → Option Ty
  | some declaration => program.declaredType annotations declaration
  | none => procedure.resultType?

section

variable {program : Program} {annotations : Annotations} {procedure : Procedure}

variable (program annotations procedure) in
/-- The returned value is noted to be of a type that the expected one accepts. -/
def Program.Conforms (returned : Option Declaration × Expr) : Prop :=
  ∃ expected actual, program.expectedType annotations procedure returned.1 = some expected ∧
    annotations.typeTable[returned.2.node.id]? = some actual ∧ expected.accepts actual = true

variable (program annotations procedure) in
def Program.Expects (context : Context) (shadow : Option Declaration) : Prop :=
  ∃ found, context.lookup "RETURN" = some found ∧
    program.expectedType annotations procedure shadow = some found.type

theorem Program.Expects.nest {context : Context} {shadow : Option Declaration}
    (expects : program.Expects annotations procedure context shadow) :
    program.Expects annotations procedure context.nest shadow := by
  rw [Program.Expects, Context.lookup_nest]
  exact expects

theorem Program.Expects.step {context extended : Context} {shadow : Option Declaration}
    {statement : Stmt}
    (expects : program.Expects annotations procedure context shadow)
    (typed : statement.Typed annotations.Notes context extended) :
    program.Expects annotations procedure extended (statement.shadowing shadow) := by
  cases typed with
  | @declaration _ _ _ name _ _ _ _ named initializes declares =>
      rw [Program.Expects, Context.lookup_of_declare? declares, Stmt.shadowing]
      by_cases same : "RETURN" = name
      · rw [if_pos same, if_pos same.symm]
        exact ⟨_, rfl, Program.declaredType_of_initializes named initializes⟩
      · rw [if_neg same, if_neg fun equal => same equal.symm]
        exact expects
  | _ => exact expects

mutual

theorem Stmt.Typed.conforms {context extended : Context} {shadow : Option Declaration}
    {statement : Stmt}
    (typed : statement.Typed annotations.Notes context extended)
    (expects : program.Expects annotations procedure context shadow) :
    ∀ returned ∈ statement.returned shadow, program.Conforms annotations procedure returned := by
  cases typed with
  | expression _ _ | declaration _ _ _ | assignment _ _ _ _ =>
      exact fun _ member => absurd member List.not_mem_nil
  | conditional _ _ trueTyped falseTyped =>
      intro returned member
      rcases List.mem_append.mp member with member | member
      · exact trueTyped.conforms expects.nest returned member
      · exact falseTyped.conforms expects.nest returned member
  | switch _ casesTyped => exact casesTyped.conforms expects
  | loop _ bodyTyped => exact bodyTyped.conforms expects.nest
  | returns lookup typed accepts =>
      intro returned member
      cases List.mem_singleton.mp member
      rcases expects with ⟨found, looked, expected⟩
      rw [lookup] at looked
      cases looked
      exact ⟨_, _, expected, typed.note, accepts⟩

theorem Stmt.AllTyped.conforms {context : Context} {shadow : Option Declaration}
    {statements : List Stmt}
    (typed : Stmt.AllTyped annotations.Notes context statements)
    (expects : program.Expects annotations procedure context shadow) :
    ∀ returned ∈ Stmt.returnedInAll shadow statements,
      program.Conforms annotations procedure returned := by
  cases typed with
  | nil => exact fun _ member => absurd member List.not_mem_nil
  | cons headTyped tailTyped =>
      intro returned member
      rcases List.mem_append.mp member with member | member
      · exact headTyped.conforms expects returned member
      · exact tailTyped.conforms (expects.step headTyped) returned member

theorem Stmt.CasesTyped.conforms {context : Context} {shadow : Option Declaration}
    {type : Ty} {cases : List Case}
    (typed : Stmt.CasesTyped annotations.Notes context type cases)
    (expects : program.Expects annotations procedure context shadow) :
    ∀ returned ∈ Case.returnedInAll shadow cases,
      program.Conforms annotations procedure returned := by
  cases typed with
  | nil => exact fun _ member => absurd member List.not_mem_nil
  | default bodyTyped =>
      intro returned member
      rcases List.mem_append.mp member with member | member
      · exact bodyTyped.conforms expects.nest returned member
      · cases member
  | cons _ _ bodyTyped _ tailTyped =>
      intro returned member
      rcases List.mem_append.mp member with member | member
      · exact bodyTyped.conforms expects.nest returned member
      · exact tailTyped.conforms expects returned member

end

theorem Procedure.resultType?_of_isNamed {result : Ty}
    (named : result.IsNamed procedure.resultTypeName .nil) :
    procedure.resultType? = some result := by
  rw [Procedure.resultType?]
  cases stated : procedure.resultTypeName with
  | none =>
      rw [stated, Ty.IsNamed] at named
      rw [named]
  | some typeName =>
      rw [stated, Ty.IsNamed] at named
      exact named

theorem Program.expects_of_bodyContext {context body : Context} {signature : Signature}
    {names : List String} (signs : procedure.signature = .ok signature)
    (opens : bodyContext context names signature = .ok body) :
    program.Expects annotations procedure body none := by
  exact ⟨_, lookup_return_of_bodyContext opens,
    Procedure.resultType?_of_isNamed (Procedure.signed signs).result⟩

theorem Typing.Sequence.conforms {context last : Context} {procedures : List Procedure}
    (sequence : Sequence (Procedure.Typed annotations.Notes) context procedures last)
    (member : procedure ∈ procedures) :
    ∀ returned ∈ procedure.returned, program.Conforms annotations procedure returned := by
  induction sequence with
  | nil => cases member
  | cons head tail induction =>
      rcases List.mem_cons.mp member with rfl | later
      · rcases head with ⟨signature, body, signs, declares, opens, typed⟩
        exact typed.conforms (Program.expects_of_bodyContext signs opens)
      · exact induction later

theorem Program.Typed.conforms {context : Context}
    (typed : program.Typed annotations.Notes context) (member : procedure ∈ program.procedures) :
    ∀ returned ∈ procedure.returned, program.Conforms annotations procedure returned := by
  rcases typed with ⟨middle, last, _, procedures, _⟩
  exact procedures.conforms member

/-- Where no block declares a `RETURN` of its own, every value that is returned is of the type
of the result. -/
theorem Program.returned_accepts {context : Context} {value : Expr}
    (typed : program.Typed annotations.Notes context) (member : procedure ∈ program.procedures)
    (spared : ∀ id typeName first,
      Stmt.declaration id "RETURN" typeName first ∉ Stmt.nestedInAll procedure.body)
    (returns : Stmt.returns value ∈ Stmt.nestedInAll procedure.body) :
    ∃ result actual, procedure.resultType? = some result ∧
      annotations.typeTable[value.node.id]? = some actual ∧ result.accepts actual = true := by
  rcases (Stmt.mem_nestedInAll_iff none value procedure.body).mp returns with ⟨shadow, returned⟩
  have conforms := typed.conforms member _ returned
  rcases Stmt.returnedInAll_isAmong procedure.body returned with
    rfl | ⟨id, typeName, first, _, declared⟩
  · exact conforms
  · exact absurd declared (spared id typeName first)

end

/-- Every value that a function of a checked program returns, at any depth, is of the
type of the function's result, unless a block around it declares a variable called
`RETURN`: then it is of the type of that variable. -/
theorem Program.returned_conforms {program : Program} {context : Context}
    {annotations : Annotations} (accepted : program.check context = .ok annotations)
    {procedure : Procedure} (member : procedure ∈ program.procedures) :
    (∀ value, Stmt.returns value ∈ Stmt.nestedInAll procedure.body ↔
      ∃ shadow, (shadow, value) ∈ procedure.returned) ∧
    ∀ shadow value, (shadow, value) ∈ procedure.returned →
      (∃ expected actual, program.expectedType annotations procedure shadow = some expected ∧
        annotations.typeTable[value.node.id]? = some actual ∧
        expected.accepts actual = true) ∧
      (shadow = none ∨ ∃ id typeName first, shadow = some (.plain typeName first) ∧
        Stmt.declaration id "RETURN" typeName first ∈ Stmt.nestedInAll procedure.body) := by
  refine ⟨fun value => Stmt.mem_nestedInAll_iff none value procedure.body, ?_⟩
  intro shadow value returned
  have typed := Program.typed_of_check accepted
  exact ⟨typed.conforms member (shadow, value) returned,
    Stmt.returnedInAll_isAmong procedure.body returned⟩

/-- A value returned from a loop is of the type of the result. -/
theorem Program.returned_conforms_of_loop :
    ∃ (program : Program) (annotations : Annotations) (procedure : Procedure) (value : Expr),
      program.check Context.standard = .ok annotations ∧ procedure ∈ program.procedures ∧
      (none, value) ∈ procedure.returned ∧
      ∃ expected actual, procedure.resultType? = some expected ∧
        annotations.typeTable[value.node.id]? = some actual ∧ expected.accepts actual = true := by
  have computed : (match Program.checkText Context.standard
      "FUN main(): Integer DO LET n = 1; WHILE n < 9 DO RETURN n; END RETURN 0; END" with
      | .ok (program, _) => program.procedures.any fun procedure =>
          procedure.returned.any fun returned => returned.1.isNone
      | .error _ => false) = true := by decide +kernel
  split at computed
  · rename_i program annotations read
    have accepted := Program.check_of_checkText read
    rcases List.any_eq_true.mp computed with ⟨procedure, member, returns⟩
    rcases List.any_eq_true.mp returns with ⟨⟨shadow, value⟩, returned, isNone⟩
    cases shadow with
    | none =>
        have conforms := (Program.returned_conforms accepted member).2 none value returned
        exact ⟨program, annotations, procedure, value, accepted, member, returned, conforms.1⟩
    | some declaration => cases isNone
  · cases computed

/-- A string is returned as the integer that a function promises, where a string called
`RETURN` is declared around it. -/
theorem Program.returned_not_accepted :
    ∃ (program : Program) (annotations : Annotations) (procedure : Procedure) (value : Expr),
      Program.checkText Context.standard ("FUN main(): Integer DO " ++
        "IF TRUE DO LET RETURN = \"s\"; RETURN \"x\"; END RETURN 1; END") =
          .ok (program, annotations) ∧
      program.check Context.standard = .ok annotations ∧ procedure ∈ program.procedures ∧
      Stmt.returns value ∈ Stmt.nestedInAll procedure.body ∧
      ∃ expected actual, procedure.resultType? = some expected ∧
        annotations.typeTable[value.node.id]? = some actual ∧
        expected.accepts actual = false := by
  have computed : (match Program.checkText Context.standard ("FUN main(): Integer DO " ++
      "IF TRUE DO LET RETURN = \"s\"; RETURN \"x\"; END RETURN 1; END") with
      | .ok (program, annotations) => program.procedures.any fun procedure =>
          procedure.returned.any fun returned =>
            procedure.resultType? == some .integer &&
              annotations.typeTable[returned.2.node.id]? == some .string
      | .error _ => false) = true := by decide +kernel
  split at computed
  · rename_i program annotations read
    rcases List.any_eq_true.mp computed with ⟨procedure, member, returns⟩
    rcases List.any_eq_true.mp returns with ⟨⟨shadow, value⟩, returned, types⟩
    rw [Bool.and_eq_true, beq_iff_eq, beq_iff_eq] at types
    exact ⟨program, annotations, procedure, value, read, Program.check_of_checkText read, member,
      (Stmt.mem_nestedInAll_iff none value procedure.body).mpr ⟨shadow, returned⟩,
      .integer, .string, types.1, types.2, rfl⟩
  · cases computed

end Plc
