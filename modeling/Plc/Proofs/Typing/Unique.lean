import Plc.Proofs.Typing.Judgement

/-! What a derivation gives a type to: every expression of the program once, and always
the same type. -/

namespace Plc.Judgement

open Typing (Variable)

/-! ## Typing is unique -/

theorem Finds.unique {entry : Names → Option α} {scopes : Scopes} {found other : α}
    (first : Finds entry scopes found) (second : Finds entry scopes other) : found = other := by
  induction first with
  | here has =>
      cases second with
      | here alsoHas => exact Option.some.inj (has.symm.trans alsoHas)
      | outward lacks _ => exact absurd (has.symm.trans lacks) (Option.some_ne_none _)
  | outward lacks _ induction =>
      cases second with
      | here has => exact absurd (has.symm.trans lacks) (Option.some_ne_none _)
      | outward _ later => exact induction later

theorem Declares.unique {scopes extended other : Scopes} {declared : Variable}
    (first : Declares scopes declared extended) (second : Declares scopes declared other) :
    extended = other := by
  cases first
  cases second
  rfl

theorem DeclaresFunction.unique {scopes extended other : Scopes} {signature : Signature}
    (first : DeclaresFunction scopes signature extended)
    (second : DeclaresFunction scopes signature other) : extended = other := by
  cases first
  cases second
  rfl

theorem DeclaresAll.unique {scopes extended other : Scopes} {declared : List Variable}
    (first : DeclaresAll scopes declared extended)
    (second : DeclaresAll scopes declared other) : extended = other := by
  induction first with
  | nil =>
      cases second
      rfl
  | cons head _ induction =>
      cases second with
      | cons otherHead otherRest =>
          cases head.unique otherHead
          exact induction otherRest

theorem Stated.unique {typeName : Option String} {stated other : Option Ty}
    (first : Stated typeName stated) (second : Stated typeName other) : stated = other := by
  cases first with
  | unnamed =>
      cases second
      rfl
  | named type =>
      generalize written : some type.name = typeName at second
      cases second with
      | unnamed => cases written
      | named otherType =>
          have sameName := Option.some.inj written
          exact (Ty.ofName?_name type).symm.trans (sameName ▸ Ty.ofName?_name otherType)

theorem StatedOr.unique {otherwise : Ty} {typeName : Option String} {type other : Ty}
    (first : StatedOr otherwise typeName type) (second : StatedOr otherwise typeName other) :
    type = other := by
  rcases first with ⟨stated, states, rfl⟩
  rcases second with ⟨otherStated, otherStates, rfl⟩
  rw [states.unique otherStates]

theorem LiteralType.unique {finite : Decimal → Prop} {value : Literal} {type other : Ty}
    (first : LiteralType finite value type) (second : LiteralType finite value other) :
    type = other := by
  cases first <;> cases second <;> rfl

theorem OperatorType.unique {operator : Operator} {left right type other : Ty}
    (first : OperatorType operator left right type)
    (second : OperatorType operator left right other) : type = other := by
  cases first <;> cases second <;> grind

section

variable {finite : Decimal → Prop}

mutual

theorem HasType.unique {scopes : Scopes} {expression : Expr} {type other : Ty}
    {parts otherParts : List (Expr × Ty)}
    (first : HasType finite scopes expression type parts)
    (second : HasType finite scopes expression other otherParts) :
    type = other ∧ parts = otherParts := by
  cases first with
  | literal typed =>
      cases second with
      | literal otherTyped =>
          cases typed.unique otherTyped
          exact ⟨rfl, rfl⟩
  | group typed =>
      cases second with
      | group otherTyped =>
          rcases typed.unique otherTyped with ⟨rfl, rfl⟩
          exact ⟨rfl, rfl⟩
  | binary leftTyped rightTyped operation =>
      cases second with
      | binary otherLeft otherRight otherOperation =>
          rcases leftTyped.unique otherLeft with ⟨rfl, rfl⟩
          rcases rightTyped.unique otherRight with ⟨rfl, rfl⟩
          cases operation.unique otherOperation
          exact ⟨rfl, rfl⟩
  | access finds =>
      cases second with
      | access otherFinds =>
          cases finds.unique otherFinds
          exact ⟨rfl, rfl⟩
  | element indexTyped finds =>
      cases second with
      | element otherIndex otherFinds =>
          rcases indexTyped.unique otherIndex with ⟨_, rfl⟩
          cases finds.unique otherFinds
          exact ⟨rfl, rfl⟩
  | call argumentsTyped finds _ =>
      cases second with
      | call otherArguments otherFinds _ =>
          rcases argumentsTyped.unique otherArguments with ⟨_, rfl⟩
          cases finds.unique otherFinds
          exact ⟨rfl, rfl⟩

theorem HaveTypes.unique {scopes : Scopes} {expressions : List Expr} {types others : List Ty}
    {parts otherParts : List (Expr × Ty)}
    (first : HaveTypes finite scopes expressions types parts)
    (second : HaveTypes finite scopes expressions others otherParts) :
    types = others ∧ parts = otherParts := by
  cases first with
  | nil =>
      cases second
      exact ⟨rfl, rfl⟩
  | cons headTyped tailTyped =>
      cases second with
      | cons otherHead otherTail =>
          rcases headTyped.unique otherHead with ⟨rfl, rfl⟩
          rcases tailTyped.unique otherTail with ⟨rfl, rfl⟩
          exact ⟨rfl, rfl⟩

end

theorem Initializes.unique {scopes : Scopes} {stated : Option Ty} {value : Option Expr}
    {type other : Ty} {parts otherParts : List (Expr × Ty)}
    (first : Initializes finite scopes stated value type parts)
    (second : Initializes finite scopes stated value other otherParts) :
    type = other ∧ parts = otherParts := by
  cases first with
  | fits typed _ =>
      cases second with
      | fits otherTyped _ => exact ⟨rfl, (typed.unique otherTyped).2⟩
  | infers typed =>
      cases second with
      | infers otherTyped => exact typed.unique otherTyped
  | unset =>
      cases second
      exact ⟨rfl, rfl⟩

theorem ElementsHaveType.unique {scopes : Scopes} {stated : Option Ty} {elements : List Expr}
    {type other : Ty} {parts otherParts : List (Expr × Ty)}
    (first : ElementsHaveType finite scopes stated elements type parts)
    (second : ElementsHaveType finite scopes stated elements other otherParts) :
    type = other ∧ parts = otherParts := by
  rcases first with ⟨typed, chosen, _⟩
  rcases second with ⟨otherTyped, otherChosen, _⟩
  rcases typed.unique otherTyped with ⟨rfl, rfl⟩
  exact ⟨chosen.symm.trans otherChosen, rfl⟩

mutual

theorem Typed.unique {scopes extended other : Scopes} {statement : Stmt}
    {parts otherParts : List (Expr × Ty)}
    (first : Typed finite scopes statement extended parts)
    (second : Typed finite scopes statement other otherParts) :
    extended = other ∧ parts = otherParts := by
  cases first with
  | expression typed =>
      cases second with
      | expression otherTyped => exact ⟨rfl, (typed.unique otherTyped).2⟩
  | declaration states initializes declares =>
      cases second with
      | declaration otherStates otherInitializes otherDeclares =>
          cases states.unique otherStates
          rcases initializes.unique otherInitializes with ⟨rfl, rfl⟩
          exact ⟨declares.unique otherDeclares, rfl⟩
  | assignment _ receiverTyped valueTyped _ =>
      cases second with
      | assignment _ otherReceiver otherValue _ =>
          rw [(receiverTyped.unique otherReceiver).2, (valueTyped.unique otherValue).2]
          exact ⟨rfl, rfl⟩
  | conditional conditionTyped _ trueTyped falseTyped =>
      cases second with
      | conditional otherCondition _ otherTrue otherFalse =>
          rw [(conditionTyped.unique otherCondition).2, trueTyped.unique otherTrue,
            falseTyped.unique otherFalse]
          exact ⟨rfl, rfl⟩
  | switch conditionTyped casesTyped =>
      cases second with
      | switch otherCondition otherCases =>
          rcases conditionTyped.unique otherCondition with ⟨rfl, rfl⟩
          rw [casesTyped.unique otherCases]
          exact ⟨rfl, rfl⟩
  | loop conditionTyped bodyTyped =>
      cases second with
      | loop otherCondition otherBody =>
          rw [(conditionTyped.unique otherCondition).2, bodyTyped.unique otherBody]
          exact ⟨rfl, rfl⟩
  | returns _ typed _ =>
      cases second with
      | returns _ otherTyped _ => exact ⟨rfl, (typed.unique otherTyped).2⟩

theorem AllTyped.unique {scopes : Scopes} {statements : List Stmt}
    {parts otherParts : List (Expr × Ty)}
    (first : AllTyped finite scopes statements parts)
    (second : AllTyped finite scopes statements otherParts) : parts = otherParts := by
  cases first with
  | nil =>
      cases second
      rfl
  | cons headTyped tailTyped =>
      cases second with
      | cons otherHead otherTail =>
          rcases headTyped.unique otherHead with ⟨rfl, rfl⟩
          rw [tailTyped.unique otherTail]

theorem CasesTyped.unique {scopes : Scopes} {type : Ty} {cases : List Case}
    {parts otherParts : List (Expr × Ty)}
    (first : CasesTyped finite scopes type cases parts)
    (second : CasesTyped finite scopes type cases otherParts) : parts = otherParts := by
  cases first with
  | nil =>
      cases second
      rfl
  | default bodyTyped =>
      cases second with
      | default otherBody => exact bodyTyped.unique otherBody
  | cons valueTyped _ bodyTyped _ tailTyped =>
      cases second with
      | cons otherValue _ otherBody _ otherTail =>
          rw [(valueTyped.unique otherValue).2, bodyTyped.unique otherBody,
            tailTyped.unique otherTail]

end

theorem not_initializes_list {scopes : Scopes} {stated : Option Ty} {node : Node}
    {elements : List Expr} {type : Ty} {parts : List (Expr × Ty)} :
    ¬Initializes finite scopes stated (some (.list node elements)) type parts := by
  intro initializes
  cases initializes with
  | fits typed _ | infers typed => cases typed

theorem GlobalTyped.unique {scopes extended other : Scopes} {declaration : Global}
    {parts otherParts : List (Expr × Ty)}
    (first : GlobalTyped finite scopes declaration extended parts)
    (second : GlobalTyped finite scopes declaration other otherParts) :
    extended = other ∧ parts = otherParts := by
  cases first with
  | list isList states elementsTyped declares =>
      cases second with
      | list otherIsList otherStates otherElements otherDeclares =>
          cases isList.symm.trans otherIsList
          cases states.unique otherStates
          rcases elementsTyped.unique otherElements with ⟨rfl, rfl⟩
          exact ⟨declares.unique otherDeclares, rfl⟩
      | plain _ initializes _ => exact absurd (isList ▸ initializes) not_initializes_list
  | plain states initializes declares =>
      cases second with
      | list isList _ _ _ => exact absurd (isList ▸ initializes) not_initializes_list
      | plain otherStates otherInitializes otherDeclares =>
          cases states.unique otherStates
          rcases initializes.unique otherInitializes with ⟨rfl, rfl⟩
          exact ⟨declares.unique otherDeclares, rfl⟩

theorem ProcedureTyped.unique {scopes extended other : Scopes} {procedure : Procedure}
    {parts otherParts : List (Expr × Ty)}
    (first : ProcedureTyped finite scopes procedure extended parts)
    (second : ProcedureTyped finite scopes procedure other otherParts) :
    extended = other ∧ parts = otherParts := by
  rcases first with ⟨parametersStated, resultStated, known, returning, declared, bodyTyped⟩
  rcases second with ⟨otherParameters, otherResult, otherKnown, otherReturning, otherDeclared,
    otherBody⟩
  cases resultStated.unique otherResult
  have stated : Relator.RightUnique (StatedOr .any) := fun _ _ _ => StatedOr.unique
  cases stated.forall₂ parametersStated otherParameters
  cases known.unique otherKnown
  cases returning.unique otherReturning
  cases declared.unique otherDeclared
  exact ⟨rfl, bodyTyped.unique otherBody⟩

theorem Sequence.unique {typed : Scopes → α → Scopes → List (Expr × Ty) → Prop}
    {scopes last other : Scopes} {declarations : List α} {parts otherParts : List (Expr × Ty)}
    (first : Sequence typed scopes declarations last parts)
    (second : Sequence typed scopes declarations other otherParts)
    (each : ∀ scopes declaration extended other parts otherParts,
      typed scopes declaration extended parts → typed scopes declaration other otherParts →
        extended = other ∧ parts = otherParts) :
    last = other ∧ parts = otherParts := by
  induction first generalizing otherParts with
  | nil =>
      cases second
      exact ⟨rfl, rfl⟩
  | cons head _ induction =>
      cases second with
      | cons otherHead otherRest =>
          rcases each _ _ _ _ _ _ head otherHead with ⟨rfl, rfl⟩
          rcases induction otherRest with ⟨rfl, rfl⟩
          exact ⟨rfl, rfl⟩

theorem ProgramTyped.unique {scopes : Scopes} {program : Program}
    {parts otherParts : List (Expr × Ty)} (first : ProgramTyped finite scopes program parts)
    (second : ProgramTyped finite scopes program otherParts) : parts = otherParts := by
  rcases first with ⟨globals, procedures, _, _⟩
  rcases second with ⟨otherGlobals, otherProcedures, _, _⟩
  rcases globals.unique otherGlobals fun _ _ _ _ _ _ => GlobalTyped.unique with ⟨rfl, rfl⟩
  rw [(procedures.unique otherProcedures fun _ _ _ _ _ _ => ProcedureTyped.unique).2]

end

/-! ## Every expression has a type -/

/-- An expression is typed after its parts and listed before them. -/
private theorem completed_perm {parts : List (Expr × Ty)} {terms : List Expr}
    (same : (parts.map Prod.fst).Perm terms) (expression : Expr) (type : Ty) :
    ((parts ++ [(expression, type)]).map Prod.fst).Perm (expression :: terms) := by
  rw [List.map_append]
  exact (List.perm_append_singleton _ _).trans (same.cons expression)

private theorem append_perm {parts others : List (Expr × Ty)} {terms otherTerms : List Expr}
    (left : (parts.map Prod.fst).Perm terms) (right : (others.map Prod.fst).Perm otherTerms) :
    ((parts ++ others).map Prod.fst).Perm (terms ++ otherTerms) := by
  rw [List.map_append]
  exact left.append right

section

variable {finite : Decimal → Prop}

mutual

theorem HasType.parts_perm {scopes : Scopes} {expression : Expr} {type : Ty}
    {parts : List (Expr × Ty)} (typed : HasType finite scopes expression type parts) :
    (parts.map Prod.fst).Perm expression.subterms := by
  cases typed with
  | literal | access => exact .refl _
  | group typed => exact completed_perm typed.parts_perm _ _
  | binary leftTyped rightTyped _ =>
      exact completed_perm (append_perm leftTyped.parts_perm rightTyped.parts_perm) _ _
  | element indexTyped _ => exact completed_perm indexTyped.parts_perm _ _
  | call argumentsTyped _ _ => exact completed_perm argumentsTyped.parts_perm _ _

theorem HaveTypes.parts_perm {scopes : Scopes} {expressions : List Expr} {types : List Ty}
    {parts : List (Expr × Ty)} (typed : HaveTypes finite scopes expressions types parts) :
    (parts.map Prod.fst).Perm (Expr.subtermsOfAll expressions) := by
  cases typed with
  | nil => exact .refl _
  | cons headTyped tailTyped => exact append_perm headTyped.parts_perm tailTyped.parts_perm

end

theorem Initializes.parts_perm {scopes : Scopes} {stated : Option Ty} {value : Option Expr}
    {type : Ty} {parts : List (Expr × Ty)}
    (initializes : Initializes finite scopes stated value type parts) :
    (parts.map Prod.fst).Perm ((value.map Expr.subterms).getD []) := by
  cases initializes with
  | fits typed _ | infers typed => exact typed.parts_perm
  | unset => exact .refl _

mutual

theorem Typed.parts_perm {scopes extended : Scopes} {statement : Stmt}
    {parts : List (Expr × Ty)} (typed : Typed finite scopes statement extended parts) :
    (parts.map Prod.fst).Perm statement.subterms := by
  cases typed with
  | expression typed => exact typed.parts_perm
  | declaration _ initializes _ => exact initializes.parts_perm
  | assignment _ receiverTyped valueTyped _ =>
      exact append_perm receiverTyped.parts_perm valueTyped.parts_perm
  | conditional conditionTyped _ trueTyped falseTyped =>
      exact append_perm (append_perm conditionTyped.parts_perm trueTyped.parts_perm)
        falseTyped.parts_perm
  | switch conditionTyped casesTyped =>
      exact append_perm conditionTyped.parts_perm casesTyped.parts_perm
  | loop conditionTyped bodyTyped =>
      exact append_perm conditionTyped.parts_perm bodyTyped.parts_perm
  | returns _ typed _ => exact typed.parts_perm

theorem AllTyped.parts_perm {scopes : Scopes} {statements : List Stmt}
    {parts : List (Expr × Ty)} (typed : AllTyped finite scopes statements parts) :
    (parts.map Prod.fst).Perm (Stmt.subtermsOfAll statements) := by
  cases typed with
  | nil => exact .refl _
  | cons headTyped tailTyped => exact append_perm headTyped.parts_perm tailTyped.parts_perm

theorem CasesTyped.parts_perm {scopes : Scopes} {type : Ty} {cases : List Case}
    {parts : List (Expr × Ty)} (typed : CasesTyped finite scopes type cases parts) :
    (parts.map Prod.fst).Perm (Case.subtermsOfAll cases) := by
  cases typed with
  | nil => exact .refl _
  | default bodyTyped =>
      rw [Case.subtermsOfAll, Case.subtermsOfAll, List.append_nil]
      exact bodyTyped.parts_perm
  | cons valueTyped _ bodyTyped _ tailTyped =>
      exact append_perm (append_perm valueTyped.parts_perm bodyTyped.parts_perm)
        tailTyped.parts_perm

end

theorem GlobalTyped.parts_perm {scopes extended : Scopes} {declaration : Global}
    {parts : List (Expr × Ty)}
    (typed : GlobalTyped finite scopes declaration extended parts) :
    (parts.map Prod.fst).Perm declaration.subterms := by
  cases typed with
  | list isList _ elementsTyped _ =>
      rcases elementsTyped with ⟨elementsTyped, _, _⟩
      rw [Global.subterms, isList]
      exact completed_perm elementsTyped.parts_perm _ _
  | plain _ initializes _ => exact initializes.parts_perm

theorem Sequence.parts_perm {typed : Scopes → α → Scopes → List (Expr × Ty) → Prop}
    {terms : α → List Expr} {scopes last : Scopes} {declarations : List α}
    {parts : List (Expr × Ty)} (sequence : Sequence typed scopes declarations last parts)
    (each : ∀ scopes declaration extended parts, typed scopes declaration extended parts →
      (parts.map Prod.fst).Perm (terms declaration)) :
    (parts.map Prod.fst).Perm (declarations.flatMap terms) := by
  induction sequence with
  | nil => exact .refl _
  | cons first _ induction => exact append_perm (each _ _ _ _ first) induction

/-- A derivation gives a type to every expression of the program, and to each only once. -/
theorem ProgramTyped.parts_perm {scopes : Scopes} {program : Program}
    {parts : List (Expr × Ty)} (typed : ProgramTyped finite scopes program parts) :
    (parts.map Prod.fst).Perm program.subterms := by
  rcases typed with ⟨globals, procedures, _, _⟩
  apply append_perm
  · exact globals.parts_perm fun _ _ _ _ => GlobalTyped.parts_perm
  · apply procedures.parts_perm
    rintro scopes procedure extended parts ⟨_, _, _, _, _, bodyTyped⟩
    exact bodyTyped.parts_perm

end

end Plc.Judgement
