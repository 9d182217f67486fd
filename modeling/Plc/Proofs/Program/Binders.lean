import Plc.Proofs.Soundness.Fragment

/-! What the names in a program may stand for. Every expression is listed with all that is
declared around it and before it, from the inside out, so that the first with a name is the
nearest. The list has what the checker knows; its own variable for the result of a function is
among it, which is nowhere declared. -/

namespace Plc

/-- What gives a name a meaning. -/
inductive Binder where
  | global (declaration : Global)
  /-- A declaration in a block. -/
  | declared (id : Nat) (name : String) (typeName : Option String) (value : Option Expr)
  | parameter (procedure : Procedure) (index : Nat) (stated : Parameter)
  /-- The result of a function. -/
  | result (procedure : Procedure)

namespace Binder

def name : Binder → String
  | .global declaration => declaration.name
  | .declared _ name _ _ => name
  | .parameter _ _ stated => stated.name
  | .result _ => "RETURN"

def isOwn : Binder → Bool
  | .result _ => false
  | _ => true

def nearest (scope : List Binder) (name : String) : Option Binder :=
  scope.find? fun binder => binder.name = name

theorem nearest_cons (binder : Binder) (scope : List Binder) (name : String) :
    nearest (binder :: scope) name =
      if name = binder.name then some binder else nearest scope name := by
  rw [nearest, List.find?_cons]
  by_cases same : name = binder.name
  · simp [same]
  · simp [same, Ne.symm same, nearest]

theorem name_of_nearest {scope : List Binder} {name : String} {binder : Binder}
    (found : nearest scope name = some binder) : binder.name = name := by
  simpa using List.find?_some found

theorem nearest_filter_of_isOwn {scope : List Binder} {name : String} {binder : Binder}
    (found : nearest scope name = some binder) (own : binder.isOwn = true) :
    nearest (scope.filter isOwn) name = some binder := by
  induction scope with
  | nil => cases found
  | cons head tail induction =>
      rw [nearest_cons] at found
      by_cases same : name = head.name
      · rw [if_pos same] at found
        cases found
        rw [List.filter_cons_of_pos own, nearest_cons, if_pos same]
      · rw [if_neg same] at found
        rw [List.filter_cons]
        split
        · rw [nearest_cons, if_neg same]
          exact induction found
        · exact induction found

theorem nearest_filter_eq_none {scope : List Binder} {name : String}
    (others : ∀ binder ∈ scope, binder.isOwn = true → binder.name ≠ name) :
    nearest (scope.filter isOwn) name = none := by
  simpa [nearest] using others

end Binder

/-! ## Statements -/

/-- What is declared around and before the next statement of the block. -/
def Stmt.binders (scope : List Binder) : Stmt → List Binder
  | .declaration id name typeName value => .declared id name typeName value :: scope
  | _ => scope

/-- Expressions that have the same things declared around them. -/
def Expr.within (scope : List Binder) (terms : List Expr) : List (List Binder × Expr) :=
  terms.map fun term => (scope, term)

mutual

def Stmt.sites (scope : List Binder) : Stmt → List (List Binder × Expr)
  | .expression value => Expr.within scope value.subterms
  | .declaration _ _ _ value => Expr.within scope ((value.map Expr.subterms).getD [])
  | .assignment receiver value => Expr.within scope (receiver.subterms ++ value.subterms)
  | .conditional condition whenTrue whenFalse =>
      Expr.within scope condition.subterms ++ Stmt.sitesInAll scope whenTrue ++
        Stmt.sitesInAll scope whenFalse
  | .switch condition cases =>
      Expr.within scope condition.subterms ++ Case.sitesInAll scope cases
  | .loop condition body =>
      Expr.within scope condition.subterms ++ Stmt.sitesInAll scope body
  | .returns value => Expr.within scope value.subterms

def Stmt.sitesInAll (scope : List Binder) : List Stmt → List (List Binder × Expr)
  | [] => []
  | head :: tail => head.sites scope ++ Stmt.sitesInAll (head.binders scope) tail

def Case.sitesInAll (scope : List Binder) : List Case → List (List Binder × Expr)
  | [] => []
  | .mk value body :: tail =>
      Expr.within scope ((value.map Expr.subterms).getD []) ++ Stmt.sitesInAll scope body ++
        Case.sitesInAll scope tail

end

theorem Expr.map_snd_within (scope : List Binder) (terms : List Expr) :
    (Expr.within scope terms).map Prod.snd = terms := by
  rw [Expr.within, List.map_map]
  exact List.map_id terms

mutual

theorem Stmt.map_snd_sites (scope : List Binder) (statement : Stmt) :
    (statement.sites scope).map Prod.snd = statement.subterms := by
  cases statement with
  | conditional condition whenTrue whenFalse =>
      simp [Stmt.sites, Stmt.subterms, Expr.map_snd_within,
        Stmt.map_snd_sitesInAll scope whenTrue, Stmt.map_snd_sitesInAll scope whenFalse]
  | switch condition cases =>
      simp [Stmt.sites, Stmt.subterms, Expr.map_snd_within, Case.map_snd_sitesInAll scope cases]
  | loop condition body =>
      simp [Stmt.sites, Stmt.subterms, Expr.map_snd_within, Stmt.map_snd_sitesInAll scope body]
  | expression | declaration | assignment | returns =>
      simp [Stmt.sites, Stmt.subterms, Expr.map_snd_within]

theorem Stmt.map_snd_sitesInAll (scope : List Binder) (statements : List Stmt) :
    (Stmt.sitesInAll scope statements).map Prod.snd = Stmt.subtermsOfAll statements := by
  cases statements with
  | nil => rfl
  | cons head tail =>
      simp [Stmt.sitesInAll, Stmt.subtermsOfAll, Stmt.map_snd_sites scope head,
        Stmt.map_snd_sitesInAll (head.binders scope) tail]

theorem Case.map_snd_sitesInAll (scope : List Binder) (cases : List Case) :
    (Case.sitesInAll scope cases).map Prod.snd = Case.subtermsOfAll cases := by
  cases cases with
  | nil => rfl
  | cons head tail =>
      rcases head with ⟨value, body⟩
      simp [Case.sitesInAll, Case.subtermsOfAll, Case.subterms, Expr.map_snd_within,
        Stmt.map_snd_sitesInAll scope body, Case.map_snd_sitesInAll scope tail]

end

/-! ## Programs -/

def Global.binders (scope : List Binder) (declarations : List Global) : List Binder :=
  (declarations.map Binder.global).reverse ++ scope

/-- A global is known after its own value. -/
def Global.sitesInAll (scope : List Binder) : List Global → List (List Binder × Expr)
  | [] => []
  | head :: tail =>
      Expr.within scope head.subterms ++ Global.sitesInAll (.global head :: scope) tail

/-- The parameters from the one at `index` on, inside of the scope. -/
def Procedure.bindersFrom (procedure : Procedure) (index : Nat) (scope : List Binder) :
    List Parameter → List Binder
  | [] => scope
  | head :: tail =>
      procedure.bindersFrom (index + 1) (.parameter procedure index head :: scope) tail

/-- What is known where the body of the function begins. -/
def Procedure.binders (procedure : Procedure) (scope : List Binder) : List Binder :=
  procedure.bindersFrom 0 (.result procedure :: scope) procedure.parameters

def Procedure.sites (procedure : Procedure) (scope : List Binder) : List (List Binder × Expr) :=
  Stmt.sitesInAll (procedure.binders scope) procedure.body

def Program.sites (program : Program) : List (List Binder × Expr) :=
  Global.sitesInAll [] program.globals ++
    program.procedures.flatMap (·.sites (Global.binders [] program.globals))

theorem Global.sitesInAll_append (scope : List Binder) (earlier later : List Global) :
    Global.sitesInAll scope (earlier ++ later) =
      Global.sitesInAll scope earlier ++
        Global.sitesInAll (Global.binders scope earlier) later := by
  induction earlier generalizing scope with
  | nil => rfl
  | cons head tail induction =>
      simp [Global.sitesInAll, Global.binders, induction]

theorem Global.map_snd_sitesInAll (scope : List Binder) (declarations : List Global) :
    (Global.sitesInAll scope declarations).map Prod.snd =
      declarations.flatMap Global.subterms := by
  induction declarations generalizing scope with
  | nil => rfl
  | cons head tail induction =>
      simp [Global.sitesInAll, Expr.map_snd_within, induction]

theorem Program.map_snd_sites (program : Program) :
    program.sites.map Prod.snd = program.subterms := by
  rw [Program.sites, List.map_append, Global.map_snd_sitesInAll, List.map_flatMap,
    Program.subterms]
  congr 2
  funext procedure
  exact Stmt.map_snd_sitesInAll _ procedure.body

/-! ## Where binders stand -/

def Program.Introduces (program : Program) : Binder → Prop
  | .global declaration => declaration ∈ program.globals
  | .declared id name typeName value => ∃ procedure ∈ program.procedures,
      Stmt.declaration id name typeName value ∈ Stmt.nestedInAll procedure.body
  | .parameter procedure index stated => procedure ∈ program.procedures ∧
      procedure.parameters[index]? = some stated
  | .result procedure => procedure ∈ program.procedures

section

variable {holds : Binder → Prop}

/-- The declarations among the statements are binders for which `holds` is true. -/
private def DeclaresOnly (holds : Binder → Prop) (statements : List Stmt) : Prop :=
  ∀ id name typeName value, Stmt.declaration id name typeName value ∈ statements →
    holds (.declared id name typeName value)

private theorem DeclaresOnly.of_subset {first second : List Stmt}
    (only : DeclaresOnly holds second) (included : first ⊆ second) : DeclaresOnly holds first :=
  fun id name typeName value member => only id name typeName value (included member)

private theorem Expr.holds_of_within {scope : List Binder} {terms : List Expr}
    (outer : ∀ binder ∈ scope, holds binder) :
    ∀ site ∈ Expr.within scope terms, ∀ binder ∈ site.1, holds binder := by
  intro site member
  rcases List.mem_map.mp member with ⟨term, _, rfl⟩
  exact outer

private theorem Stmt.holds_of_binders {scope : List Binder} {statement : Stmt}
    (outer : ∀ binder ∈ scope, holds binder) (only : DeclaresOnly holds statement.nested) :
    ∀ binder ∈ statement.binders scope, holds binder := by
  cases statement with
  | declaration id name typeName value =>
      exact List.forall_mem_cons.mpr
        ⟨only id name typeName value (List.mem_singleton.mpr rfl), outer⟩
  | expression | assignment | conditional | switch | loop | returns => exact outer

mutual

private theorem Stmt.holds_of_sites {scope : List Binder} (statement : Stmt)
    (outer : ∀ binder ∈ scope, holds binder) (only : DeclaresOnly holds statement.nested) :
    ∀ site ∈ statement.sites scope, ∀ binder ∈ site.1, holds binder := by
  cases statement with
  | expression | declaration | assignment | returns => exact Expr.holds_of_within outer
  | conditional condition whenTrue whenFalse =>
      have inner := only.of_subset (List.subset_cons_self _ _)
      apply List.forall_mem_append.mpr ⟨List.forall_mem_append.mpr
        ⟨Expr.holds_of_within outer, ?_⟩, ?_⟩
      · exact Stmt.holds_of_sitesInAll whenTrue outer
          (inner.of_subset (List.subset_append_left _ _))
      · exact Stmt.holds_of_sitesInAll whenFalse outer
          (inner.of_subset (List.subset_append_right _ _))
  | switch condition cases =>
      apply List.forall_mem_append.mpr ⟨Expr.holds_of_within outer, ?_⟩
      exact Case.holds_of_sitesInAll cases outer (only.of_subset (List.subset_cons_self _ _))
  | loop condition body =>
      apply List.forall_mem_append.mpr ⟨Expr.holds_of_within outer, ?_⟩
      exact Stmt.holds_of_sitesInAll body outer (only.of_subset (List.subset_cons_self _ _))

private theorem Stmt.holds_of_sitesInAll {scope : List Binder} (statements : List Stmt)
    (outer : ∀ binder ∈ scope, holds binder)
    (only : DeclaresOnly holds (Stmt.nestedInAll statements)) :
    ∀ site ∈ Stmt.sitesInAll scope statements, ∀ binder ∈ site.1, holds binder := by
  cases statements with
  | nil => exact fun _ member => absurd member List.not_mem_nil
  | cons head tail =>
      have first := only.of_subset (List.subset_append_left _ _)
      apply List.forall_mem_append.mpr ⟨Stmt.holds_of_sites head outer first, ?_⟩
      exact Stmt.holds_of_sitesInAll tail (Stmt.holds_of_binders outer first)
        (only.of_subset (List.subset_append_right _ _))

private theorem Case.holds_of_sitesInAll {scope : List Binder} (cases : List Case)
    (outer : ∀ binder ∈ scope, holds binder)
    (only : DeclaresOnly holds (Case.nestedInAll cases)) :
    ∀ site ∈ Case.sitesInAll scope cases, ∀ binder ∈ site.1, holds binder := by
  cases cases with
  | nil => exact fun _ member => absurd member List.not_mem_nil
  | cons head tail =>
      rcases head with ⟨value, body⟩
      apply List.forall_mem_append.mpr ⟨List.forall_mem_append.mpr
        ⟨Expr.holds_of_within outer, ?_⟩, ?_⟩
      · exact Stmt.holds_of_sitesInAll body outer
          (only.of_subset (List.subset_append_left _ _))
      · exact Case.holds_of_sitesInAll tail outer
          (only.of_subset (List.subset_append_right _ _))

end

private theorem Global.holds_of_sitesInAll {scope : List Binder} (declarations : List Global)
    (outer : ∀ binder ∈ scope, holds binder)
    (each : ∀ declaration ∈ declarations, holds (.global declaration)) :
    ∀ site ∈ Global.sitesInAll scope declarations, ∀ binder ∈ site.1, holds binder := by
  induction declarations generalizing scope with
  | nil => exact fun _ member => absurd member List.not_mem_nil
  | cons head tail induction =>
      rcases List.forall_mem_cons.mp each with ⟨first, rest⟩
      exact List.forall_mem_append.mpr ⟨Expr.holds_of_within outer,
        induction (List.forall_mem_cons.mpr ⟨first, outer⟩) rest⟩

private theorem Procedure.holds_of_bindersFrom {procedure : Procedure} {index : Nat}
    {scope : List Binder} (parameters : List Parameter)
    (outer : ∀ binder ∈ scope, holds binder)
    (each : ∀ offset stated, parameters[offset]? = some stated →
      holds (.parameter procedure (index + offset) stated)) :
    ∀ binder ∈ procedure.bindersFrom index scope parameters, holds binder := by
  induction parameters generalizing index scope with
  | nil => exact outer
  | cons head tail induction =>
      apply induction (List.forall_mem_cons.mpr ⟨each 0 head rfl, outer⟩)
      intro offset stated found
      rw [Nat.add_right_comm]
      exact each (offset + 1) stated found

end

/-- What is declared around an expression of the program stands in the program. -/
theorem Program.introduces_of_sites {program : Program} {scope : List Binder} {term : Expr}
    (member : (scope, term) ∈ program.sites) : ∀ binder ∈ scope, program.Introduces binder := by
  have globals : ∀ binder ∈ Global.binders [] program.globals, program.Introduces binder := by
    intro binder among
    rw [Global.binders, List.append_nil, List.mem_reverse, List.mem_map] at among
    rcases among with ⟨declaration, declared, rfl⟩
    exact declared
  rcases List.mem_append.mp member with inGlobals | inProcedures
  · exact Global.holds_of_sitesInAll program.globals
      (fun _ among => absurd among List.not_mem_nil) (fun _ declared => declared) _ inGlobals
  · rcases List.mem_flatMap.mp inProcedures with ⟨procedure, declared, inBody⟩
    have outer : ∀ binder ∈ procedure.binders (Global.binders [] program.globals),
        program.Introduces binder := by
      apply Procedure.holds_of_bindersFrom
      · exact List.forall_mem_cons.mpr ⟨declared, globals⟩
      · intro offset stated found
        rw [Nat.zero_add]
        exact ⟨declared, found⟩
    apply Stmt.holds_of_sitesInAll procedure.body outer _ _ inBody
    exact fun id name typeName value among => ⟨procedure, declared, among⟩

end Plc
