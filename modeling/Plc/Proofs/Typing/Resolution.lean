import Plc.Proofs.Grammar.Numbering
import Plc.Proofs.Program.Binders
import Plc.Proofs.Typing.Binds
import Plc.Proofs.Typing.Program

/-! What checking takes names for. For every name that is read it notes the variable of the
nearest binder with that name. -/

namespace Plc

open Typing

open Check (Binds)

/-! ## Binders and variables -/

/-- The binder makes known the variable. For a global and for a declaration in a block that is
the variable which is noted there. -/
def Binder.Gives (table : Nat → Option Variable) : Binder → Variable → Prop
  | .global declaration, found => table declaration.id = some found ∧
      found.name = declaration.name ∧ found.isMutable = declaration.isMutable
  | .declared id name _ _, found => table id = some found ∧ found.name = name ∧
      found.isMutable = true
  | .parameter _ _ stated, found => ∃ type : Ty, type.IsNamed stated.typeName .any ∧
      found = ⟨stated.name, type, true⟩
  | .result procedure, found => ∃ type : Ty, type.IsNamed procedure.resultTypeName .nil ∧
      found = ⟨"RETURN", type, false⟩

/-- A name that is read has the variable of the nearest binder. -/
def Binder.Resolves (table : Nat → Option Variable) (site : List Binder × Expr) : Prop :=
  ∀ node name, site.2.read? = some (node, name) →
    ∃ binder found, Binder.nearest site.1 name = some binder ∧
      table node.id = some found ∧ binder.Gives table found

/-- The context knows a name as the nearest of the binders does. -/
def Typing.Context.Matches (context : Context) (table : Nat → Option Variable)
    (scope : List Binder) : Prop :=
  ∀ name, match Binder.nearest scope name with
    | some binder => ∃ found, context.lookup name = some found ∧ binder.Gives table found
    | none => context.lookup name = none

namespace Typing.Context.Matches

variable {context extended : Context} {table : Nat → Option Variable} {scope : List Binder}

theorem of_lookup_eq (known : context.Matches table scope)
    (same : ∀ name, extended.lookup name = context.lookup name) :
    extended.Matches table scope := by
  intro name
  rw [same]
  exact known name

theorem nest (known : context.Matches table scope) : context.nest.Matches table scope :=
  known.of_lookup_eq context.lookup_nest

theorem declare {declared : Variable} {binder : Binder} (known : context.Matches table scope)
    (declares : context.declare? declared = some extended)
    (named : binder.name = declared.name) (gives : binder.Gives table declared) :
    extended.Matches table (binder :: scope) := by
  intro name
  rw [Binder.nearest_cons, Context.lookup_of_declare? declares, named]
  by_cases same : name = declared.name
  · rw [if_pos same, if_pos same]
    exact ⟨declared, rfl, gives⟩
  · rw [if_neg same, if_neg same]
    exact known name

end Typing.Context.Matches

/-! ## Expressions -/

/-- What is read in the expressions is known in the context, and noted as that. -/
def Typing.Context.Reads (context : Context) (table : Nat → Option Variable)
    (terms : List Expr) : Prop :=
  ∀ term ∈ terms, ∀ node name, term.read? = some (node, name) →
    ∃ found, context.lookup name = some found ∧ table node.id = some found

namespace Typing.Context.Reads

variable {context : Context} {table : Nat → Option Variable} {first second : List Expr}

theorem append (left : context.Reads table first) (right : context.Reads table second) :
    context.Reads table (first ++ second) :=
  List.forall_mem_append.mpr ⟨left, right⟩

theorem cons_of_none {term : Expr} (nothing : term.read? = none)
    (parts : context.Reads table first) : context.Reads table (term :: first) := by
  refine List.forall_mem_cons.mpr ⟨?_, parts⟩
  intro node name reads
  rw [nothing] at reads
  cases reads

theorem nil : context.Reads table [] := fun _ member => absurd member List.not_mem_nil

theorem resolves {scope : List Binder} (reads : context.Reads table first)
    (known : context.Matches table scope) :
    ∀ site ∈ Expr.within scope first, Binder.Resolves table site := by
  intro site member node name read
  rcases List.mem_map.mp member with ⟨term, among, rfl⟩
  rcases reads term among node name read with ⟨found, looked, noted⟩
  have nearest := known name
  cases binding : Binder.nearest scope name with
  | none =>
      rw [binding, looked] at nearest
      cases nearest
  | some binder =>
      rw [binding] at nearest
      rcases nearest with ⟨given, same, gives⟩
      rw [looked] at same
      cases same
      exact ⟨binder, found, rfl, noted, gives⟩

end Typing.Context.Reads

namespace Typing

theorem findVariable_binds (context : Context) (name : String) :
    Binds [] [] (findVariable context name) fun _ found =>
      context.lookup name = some found := by
  unfold findVariable
  split
  · exact .pure fun _ => by assumption
  · exact .throw _

theorem findFunction_binds (context : Context) (name : String) (arity : Nat) :
    Binds [] [] (findFunction context name arity) fun _ _ => True := by
  unfold findFunction
  split
  · exact .pure fun _ => trivial
  · exact .throw _

theorem accessType_binds (context : Context) (term : Expr) (name : String) :
    Binds [term] [] (accessType context term.node name) fun table _ =>
      ∃ found, context.lookup name = some found ∧ table term.node.id = some found := by
  apply (findVariable_binds context name).bind_none
  intro found
  apply (Binds.recordVariable [term] [] rfl found).bind_done
  intro _
  apply (Binds.recordType _ _).mono
  intro table _ _ noted looked
  exact ⟨found, looked, noted⟩

end Typing

mutual

theorem Expr.check_binds (context : Context) : ∀ expression : Expr,
    Binds expression.subterms [] (expression.check context) fun table _ =>
      context.Reads table expression.subterms
  | .literal node value => by
      apply Binds.widen _ (List.nil_sublist _)
      apply (Binds.lift _).bind_none
      intro type
      apply (Binds.recordType _ _).mono
      intro table _ _ _
      exact .cons_of_none rfl .nil
  | .group node inner => by
      unfold Expr.check
      cases inner.isBinary with
      | false => exact .throw _
      | true =>
          apply Binds.widen _ (List.sublist_cons_self _ _)
          apply (inner.check_binds context).bind_done
          intro type
          apply (Binds.recordType _ _).mono
          intro table _ _ parts
          exact parts.cons_of_none rfl
  | .binary node operator left right => by
      apply Binds.widen _ (List.sublist_cons_self _ _)
      apply (left.check_binds context).bind
      intro leftType
      apply (right.check_binds context).bind_done
      intro rightType
      apply (Binds.lift _).bind_none
      intro type
      apply (Binds.recordType _ _).mono
      intro table _ _ _ rightReads leftReads
      exact (leftReads.append rightReads).cons_of_none rfl
  | .access node name => by
      apply (accessType_binds context (.access node name) name).mono
      intro table _ known term member other read reads
      cases List.mem_singleton.mp member
      cases reads
      exact known
  | .element node name index => by
      have self := accessType_binds context (.element node name index) name
      have checked : Binds (index.subterms ++ [.element node name index]) []
          ((Expr.element node name index).check context) fun table _ =>
            context.Reads table (Expr.element node name index).subterms := by
        apply (index.check_binds context).bind
        intro indexType
        apply (Binds.lift _).bind_none
        intro _
        apply self.mono
        intro table _ known _ indexReads
        refine List.forall_mem_cons.mpr ⟨?_, indexReads⟩
        intro other read reads
        cases reads
        exact known
      exact checked.reorder (List.perm_append_singleton _ _) (.refl _)
  | .call node name arguments => by
      apply Binds.widen _ (List.sublist_cons_self _ _)
      apply (Expr.checkAll_binds context arguments).bind_done
      intro types
      apply (findFunction_binds context name arguments.length).bind_none
      intro found
      apply (Binds.lift _).bind_none
      intro _
      apply (Binds.recordFunction _ _).bind_none
      intro _
      apply (Binds.recordType _ _).mono
      intro table _ _ _ _ _ parts
      exact parts.cons_of_none rfl
  | .list _ _ => .throw _

theorem Expr.checkAll_binds (context : Context) : ∀ expressions : List Expr,
    Binds (Expr.subtermsOfAll expressions) [] (Expr.checkAll context expressions)
      fun table _ => context.Reads table (Expr.subtermsOfAll expressions)
  | [] => .pure fun _ => .nil
  | head :: tail => by
      apply (head.check_binds context).bind
      intro type
      apply (Expr.checkAll_binds context tail).bind_done
      intro types
      exact .pure fun table tailReads headReads => headReads.append tailReads

end

/-! ## Declarations -/

namespace Typing

theorem declare_binds (context : Context) (id : Nat) (declared : Variable) :
    Binds [] [id] (declare context id declared) fun table extended =>
      context.declare? declared = some extended ∧ table id = some declared := by
  unfold declare
  split
  · exact .throw _
  · rename_i extended declares
    apply (Binds.recordVariable [] [id] rfl declared).bind_done
    intro _
    exact .pure fun table noted => ⟨declares, noted⟩

theorem initializerType_binds (context : Context) (name : String) (stated : Option Ty)
    (value : Option Expr) :
    Binds ((value.map Expr.subterms).getD []) [] (initializerType context name stated value)
      fun table _ => context.Reads table ((value.map Expr.subterms).getD []) := by
  unfold initializerType
  cases value with
  | some value =>
      apply (value.check_binds context).bind_done
      intro actual
      cases stated with
      | some stated =>
          apply (Binds.lift _).bind_none
          intro _
          exact .pure fun table _ reads => reads
      | none => exact .pure fun table reads => reads
  | none =>
      cases stated with
      | some stated => exact .pure fun _ => .nil
      | none => exact .throw _

theorem elementType_binds (context : Context) (stated : Option Ty) (elements : List Expr) :
    Binds (Expr.subtermsOfAll elements) [] (elementType context stated elements)
      fun table _ => context.Reads table (Expr.subtermsOfAll elements) := by
  induction elements generalizing stated with
  | nil =>
      unfold elementType
      exact .pure fun _ => .nil
  | cons head tail induction =>
      unfold elementType
      apply (head.check_binds context).bind
      intro actual
      cases stated with
      | some stated =>
          apply (Binds.lift _).bind_none
          intro _
          apply (induction (some stated)).mono
          intro table type tailReads _ headReads
          exact headReads.append tailReads
      | none =>
          apply (induction (some actual)).mono
          intro table type tailReads headReads
          exact headReads.append tailReads

end Typing

/-! ## Statements -/

/-- From where the context matches the binders, everything that is read resolves. -/
def Typing.Context.Resolved (context : Context) (table : Nat → Option Variable)
    (sites : List Binder → List (List Binder × Expr)) : Prop :=
  ∀ scope, context.Matches table scope → ∀ site ∈ sites scope, Binder.Resolves table site

namespace Typing.Context.Resolved

variable {context : Context} {table : Nat → Option Variable}
  {first second : List Binder → List (List Binder × Expr)}

theorem append (left : context.Resolved table first) (right : context.Resolved table second) :
    context.Resolved table fun scope => first scope ++ second scope :=
  fun scope known => List.forall_mem_append.mpr ⟨left scope known, right scope known⟩

theorem of_nest (inner : context.nest.Resolved table first) : context.Resolved table first :=
  fun scope known => inner scope known.nest

theorem of_reads {terms : List Expr} (reads : context.Reads table terms) :
    context.Resolved table fun scope => Expr.within scope terms :=
  fun _ known => reads.resolves known

end Typing.Context.Resolved

/-- What follows the statement in its block is checked where the context matches as well. -/
def Stmt.Extends (statement : Stmt) (context extended : Context)
    (table : Nat → Option Variable) : Prop :=
  ∀ scope, context.Matches table scope → extended.Matches table (statement.binders scope)

mutual

theorem Stmt.check_binds (context : Context) : ∀ statement : Stmt,
    Binds statement.subterms (statement.nested.filterMap Stmt.declaredNumber?)
      (statement.check context) fun table extended =>
        context.Resolved table statement.sites ∧ statement.Extends context extended table
  | .expression value => by
      unfold Stmt.check
      cases value.isCall with
      | false => exact .throw _
      | true =>
          apply (value.check_binds context).bind_done
          intro type
          exact .pure fun table reads => ⟨.of_reads reads, fun _ known => known⟩
  | .declaration id name typeName value => by
      apply (Binds.lift _).bind_none
      intro stated
      have checked : Binds ((value.map Expr.subterms).getD [] ++ []) ([] ++ [id]) (do
          let type ← initializerType context name stated value
          declare context id ⟨name, type, true⟩) fun table extended =>
            context.Resolved table (Stmt.declaration id name typeName value).sites ∧
              (Stmt.declaration id name typeName value).Extends context extended table := by
        apply (initializerType_binds context name stated value).bind
        intro type
        apply (declare_binds context id ⟨name, type, true⟩).mono
        intro table extended declared reads
        refine ⟨.of_reads reads, fun scope known => ?_⟩
        exact known.declare declared.1 rfl ⟨declared.2, rfl, rfl⟩
      rw [List.append_nil] at checked
      exact checked.mono fun _ _ resolved _ => resolved
  | .assignment receiver value => by
      unfold Stmt.check
      cases receiver.isReceiver with
      | false => exact .throw _
      | true =>
          apply (receiver.check_binds context).bind
          intro target
          apply (value.check_binds context).bind_done
          intro actual
          apply (Binds.lift _).bind_none
          intro _
          refine .pure fun table _ valueReads receiverReads => ⟨?_, fun _ known => known⟩
          exact .of_reads (receiverReads.append valueReads)
  | .conditional condition whenTrue whenFalse => by
      unfold Stmt.check
      rw [Stmt.subterms, List.append_assoc, Stmt.nested, List.filterMap_cons]
      apply (condition.check_binds context).bind
      intro type
      apply (Binds.lift _).bind_none
      intro _
      split
      · exact .throw _
      · rw [List.filterMap_append]
        apply (Stmt.checkAll_binds context.nest whenTrue).bind
        intro _
        apply (Stmt.checkAll_binds context.nest whenFalse).bind_done
        intro _
        refine .pure fun table falseResolved trueResolved _ reads => ⟨?_, fun _ known => known⟩
        exact (Context.Resolved.append (.of_reads reads) (.of_nest trueResolved)).append
          (.of_nest falseResolved)
  | .switch condition cases => by
      apply (condition.check_binds context).bind
      intro type
      apply (Case.checkAll_binds context type cases).bind_done
      intro _
      refine .pure fun table casesResolved reads => ⟨?_, fun _ known => known⟩
      exact Context.Resolved.append (.of_reads reads) casesResolved
  | .loop condition body => by
      apply (condition.check_binds context).bind
      intro type
      apply (Binds.lift _).bind_none
      intro _
      apply (Stmt.checkAll_binds context.nest body).bind_done
      intro _
      refine .pure fun table bodyResolved _ reads => ⟨?_, fun _ known => known⟩
      exact Context.Resolved.append (.of_reads reads) (.of_nest bodyResolved)
  | .returns value => by
      apply (findVariable_binds context "RETURN").bind_none
      intro expected
      apply (value.check_binds context).bind_done
      intro actual
      apply (Binds.lift _).bind_none
      intro _
      exact .pure fun table _ reads _ => ⟨.of_reads reads, fun _ known => known⟩

theorem Stmt.checkAll_binds (context : Context) : ∀ statements : List Stmt,
    Binds (Stmt.subtermsOfAll statements)
      ((Stmt.nestedInAll statements).filterMap Stmt.declaredNumber?)
      (Stmt.checkAll context statements) fun table _ =>
        context.Resolved table fun scope => Stmt.sitesInAll scope statements
  | [] => .pure fun _ _ _ _ member => absurd member List.not_mem_nil
  | head :: tail => by
      rw [Stmt.nestedInAll, List.filterMap_append]
      apply (head.check_binds context).bind
      intro extended
      apply (Stmt.checkAll_binds extended tail).mono
      intro table _ tailResolved headResolved scope known
      exact List.forall_mem_append.mpr ⟨headResolved.1 scope known,
        tailResolved (head.binders scope) (headResolved.2 scope known)⟩

theorem Case.checkAll_binds (context : Context) (type : Ty) : ∀ cases : List Case,
    Binds (Case.subtermsOfAll cases) ((Case.nestedInAll cases).filterMap Stmt.declaredNumber?)
      (Case.checkAll context type cases) fun table _ =>
        context.Resolved table fun scope => Case.sitesInAll scope cases
  | [] => .pure fun _ _ _ _ member => absurd member List.not_mem_nil
  | .mk value body :: tail => by
      have branch : Binds (Case.mk value body).subterms
          ((Stmt.nestedInAll body).filterMap Stmt.declaredNumber?)
          ((Case.mk value body).check context type tail.isEmpty) fun table _ =>
            context.Resolved table fun scope =>
              Expr.within scope ((value.map Expr.subterms).getD []) ++
                Stmt.sitesInAll scope body := by
        unfold Case.check
        cases value with
        | none =>
            dsimp only
            split
            · exact .throw _
            · exact (Stmt.checkAll_binds context.nest body).mono fun _ _ resolved =>
                .of_nest resolved
        | some value =>
            dsimp only
            split
            · exact .throw _
            · apply (value.check_binds context).bind
              intro actual
              apply (Binds.lift _).bind_none
              intro _
              apply (Stmt.checkAll_binds context.nest body).mono
              intro table _ resolved _ reads
              exact Context.Resolved.append (.of_reads reads) (.of_nest resolved)
      rw [Case.nestedInAll, List.filterMap_append]
      apply branch.bind
      intro _
      apply (Case.checkAll_binds context type tail).mono
      intro table _ tailResolved headResolved
      exact headResolved.append tailResolved

end

/-! ## Programs -/

theorem Global.check_binds (context : Context) (declaration : Global) :
    Binds declaration.subterms [declaration.id] (declaration.check context)
      fun table extended =>
        (context.Resolved table fun scope => Expr.within scope declaration.subterms) ∧
        ∀ scope, context.Matches table scope →
          extended.Matches table (.global declaration :: scope) := by
  have declares : ∀ type, Binds [] [declaration.id]
      (declare context declaration.id ⟨declaration.name, type, declaration.isMutable⟩)
      fun table extended => ∀ scope, context.Matches table scope →
        extended.Matches table (.global declaration :: scope) := by
    intro type
    apply (declare_binds context declaration.id _).mono
    intro table extended declared scope known
    exact known.declare declared.1 rfl ⟨declared.2, rfl, rfl⟩
  unfold Global.check
  apply (Binds.lift _).bind_none
  intro stated
  split
  · rename_i node elements isList
    have checked : Binds (Expr.subtermsOfAll elements ++ []) ([] ++ [declaration.id]) (do
        let type ← Check.recordType node.id (← elementType context stated elements)
        declare context declaration.id ⟨declaration.name, type, declaration.isMutable⟩)
        fun table extended =>
          context.Reads table (Expr.subtermsOfAll elements) ∧ ∀ scope,
            context.Matches table scope →
              extended.Matches table (.global declaration :: scope) := by
      apply (elementType_binds context stated elements).bind
      intro type
      apply (Binds.recordType node.id type).bind_none
      intro type
      exact (declares type).mono fun _ _ known _ reads => ⟨reads, known⟩
    have terms : declaration.subterms = .list node elements :: Expr.subtermsOfAll elements := by
      rw [Global.subterms, isList]
      rfl
    rw [List.append_nil] at checked
    rw [terms]
    apply (checked.widen (List.sublist_cons_self _ _)).mono
    intro table extended resolved _
    exact ⟨.of_reads (resolved.1.cons_of_none rfl), resolved.2⟩
  · have checked : Binds (declaration.subterms ++ []) ([] ++ [declaration.id]) (do
        let type ← initializerType context declaration.name stated declaration.value
        declare context declaration.id ⟨declaration.name, type, declaration.isMutable⟩)
        fun table extended =>
          (context.Resolved table fun scope => Expr.within scope declaration.subterms) ∧
          ∀ scope, context.Matches table scope →
            extended.Matches table (.global declaration :: scope) := by
      apply (initializerType_binds context declaration.name stated declaration.value).bind
      intro type
      exact (declares type).mono fun _ _ known reads => ⟨.of_reads reads, known⟩
    rw [List.append_nil] at checked
    exact checked.mono fun _ _ resolved _ => resolved

theorem Global.checkAll_binds (declarations : List Global) (context : Context) :
    Binds (declarations.flatMap Global.subterms) (declarations.map (·.id))
      (declarations.foldlM Global.check context) fun table last =>
        (context.Resolved table fun scope => Global.sitesInAll scope declarations) ∧
        ∀ scope, context.Matches table scope →
          last.Matches table (Global.binders scope declarations) := by
  induction declarations generalizing context with
  | nil =>
      exact .pure fun _ => ⟨fun _ _ _ member => absurd member List.not_mem_nil,
        fun _ known => known⟩
  | cons head tail induction =>
      rw [List.foldlM_cons]
      apply (head.check_binds context).bind
      intro extended
      apply (induction extended).mono
      rintro table last ⟨tailResolved, lastMatches⟩ ⟨headResolved, headMatches⟩
      refine ⟨?_, ?_⟩
      · intro scope known
        exact List.forall_mem_append.mpr ⟨headResolved scope known,
          tailResolved _ (headMatches scope known)⟩
      · intro scope known
        simpa [Global.binders] using lastMatches _ (headMatches scope known)

theorem Typing.Context.Matches.declareParameters {table : Nat → Option Variable}
    {procedure : Procedure} {parameters : List Parameter} {types : List Ty} {index : Nat}
    {context body : Context} {scope : List Binder}
    (named : ∀ (position : Nat) parameter type, parameters[position]? = some parameter →
      types[position]? = some type → type.IsNamed parameter.typeName .any)
    (length : types.length = parameters.length) (known : context.Matches table scope)
    (declares : declareParameters context ((parameters.map (·.name)).zip types) = .ok body) :
    body.Matches table (procedure.bindersFrom index scope parameters) := by
  induction parameters generalizing types index context scope with
  | nil =>
      cases declares
      exact known
  | cons head tail induction =>
      cases types with
      | nil => cases length
      | cons type types =>
          rw [List.map_cons, List.zip_cons_cons, Typing.declareParameters] at declares
          split at declares
          · rename_i extended declared
            have gives : (Binder.parameter procedure index head).Gives table
                ⟨head.name, type, true⟩ := ⟨type, named 0 head type rfl rfl, rfl⟩
            apply induction _ (Nat.succ.inj length) (known.declare declared rfl gives) declares
            exact fun position => named (position + 1)
          · cases declares

theorem Typing.Context.Matches.body {table : Nat → Option Variable} {procedure : Procedure}
    {signature : Signature} {context body : Context} {scope : List Binder}
    (signs : procedure.signature = .ok signature) (known : context.Matches table scope)
    (opens : bodyContext context (procedure.parameters.map (·.name)) signature = .ok body) :
    body.Matches table (procedure.binders scope) := by
  have signed := Procedure.signed signs
  refine Context.Matches.declareParameters signed.parameters signed.length ?_ opens
  have result : (Binder.result procedure).Gives table ⟨"RETURN", signature.result, false⟩ :=
    ⟨signature.result, signed.result, rfl⟩
  -- the scope of the function has its result before any parameter is declared
  have opened : context.nest.declare? ⟨"RETURN", signature.result, false⟩ =
      some { context.nest with
        inner := ⟨[("RETURN", ⟨"RETURN", signature.result, false⟩)], []⟩ } := rfl
  exact known.nest.declare opened rfl result

theorem Procedure.check_binds (context : Context) (procedure : Procedure) :
    Binds procedure.subterms ((Stmt.nestedInAll procedure.body).filterMap Stmt.declaredNumber?)
      (procedure.check context) fun table extended =>
        context.Resolved table procedure.sites ∧
        ∀ scope, context.Matches table scope → extended.Matches table scope := by
  unfold Procedure.check
  apply (Binds.lift _).bind_none
  intro signature
  split
  · exact .throw _
  · rename_i extended declares
    apply (Binds.recordFunction _ _).bind_none
    intro _
    apply (Binds.lift _).bind_none
    intro body
    apply (Stmt.checkAll_binds body procedure.body).bind_done
    intro _
    refine .pure fun table resolved opens _ signs => ?_
    have extend : ∀ scope, context.Matches table scope → extended.Matches table scope :=
      fun scope known => known.of_lookup_eq (Context.lookup_of_declareFunction? declares)
    refine ⟨fun scope known => ?_, extend⟩
    exact resolved _ ((extend scope known).body signs opens)

theorem Procedure.checkAll_binds (procedures : List Procedure) (context : Context) :
    Binds (procedures.flatMap Procedure.subterms)
      (procedures.flatMap fun procedure =>
        (Stmt.nestedInAll procedure.body).filterMap Stmt.declaredNumber?)
      (procedures.foldlM Procedure.check context) fun table _ =>
        context.Resolved table fun scope => procedures.flatMap (·.sites scope) := by
  induction procedures generalizing context with
  | nil => exact .pure fun _ _ _ _ member => absurd member List.not_mem_nil
  | cons head tail induction =>
      rw [List.foldlM_cons]
      apply (head.check_binds context).bind
      intro extended
      apply (induction extended).mono
      rintro table _ tailResolved ⟨headResolved, extend⟩ scope known
      exact List.forall_mem_append.mpr
        ⟨headResolved scope known, tailResolved scope (extend scope known)⟩

/-- In a program that is accepted where no variable is known, every name that is read has the
variable of its nearest binder. -/
theorem Program.resolves_of_check {context : Context} {program : Program}
    {annotations : Annotations} (bare : ∀ name, context.lookup name = none)
    (distinct : program.numbers.Nodup) (accepted : program.check context = .ok annotations) :
    ∀ site ∈ program.sites, Binder.Resolves (annotations.variableTable[·]?) site := by
  have binds : Binds program.subterms (program.globals.map (·.id) ++ program.declaredNumbers)
      (do
        let context ← program.globals.foldlM Global.check context
        let context ← program.procedures.foldlM Procedure.check context
        requireMain context : Check Unit) fun table _ =>
          context.Matches table [] → ∀ site ∈ program.sites, Binder.Resolves table site := by
    apply (Global.checkAll_binds program.globals context).bind
    intro middle
    apply (Procedure.checkAll_binds program.procedures middle).bind_done
    intro last
    apply (Binds.lift _).mono
    rintro table _ _ proceduresResolved ⟨globalsResolved, extend⟩ known
    exact List.forall_mem_append.mpr
      ⟨globalsResolved [] known, proceduresResolved _ (extend [] known)⟩
  unfold Program.check at accepted
  dsimp only at accepted
  cases ran : (do
      let context ← program.globals.foldlM Global.check context
      let context ← program.procedures.foldlM Procedure.check context
      requireMain context : Check Unit).run .empty with
  | error error =>
      rw [ran] at accepted
      cases accepted
  | ok pair =>
      rw [ran] at accepted
      cases accepted
      have apart : (Check.numbersOf program.subterms
          (program.globals.map (·.id) ++ program.declaredNumbers)).Nodup :=
        (program.numbers_perm.nodup_iff.mp distinct).sublist (List.sublist_append_left _ _)
      exact (binds _ _ _ ran).2 apart _ (fun _ _ => rfl) bare

end Plc
