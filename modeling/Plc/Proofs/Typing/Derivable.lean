import Plc.Proofs.Grammar.Numbering
import Plc.Proofs.Soundness.Hosts
import Plc.Proofs.Typing.Decided

/-! Checking decides the type system: it accepts just the programs that the rules derive,
and notes the types of the derivation. -/

namespace Plc

open Typing Judgement

open Check (Decides Settles)

/-! ## Programs -/

theorem Global.check_decides (context : Context) (declaration : Global) :
    Decides (declaration.check context) Context.names
      (GlobalTyped Finite context.names declaration) := by
  unfold Global.check
  split
  · rename_i node elements isList
    refine ((Ty.ofOptionalName_settles declaration.typeName).bind fun stated =>
      (elementType_decides context stated elements).bind fun type =>
        (Decides.recordType (.list node elements) type).bindSettles fun type =>
          declare_settles context declaration.id
            ⟨declaration.name, type, declaration.isMutable⟩).congr fun scopes parts => ?_
    constructor
    · rintro ⟨_, states, _, _, _, elementsTyped, ⟨_, ⟨rfl, rfl⟩, declares⟩, rfl⟩
      exact .list isList states elementsTyped declares
    · intro derived
      cases derived with
      | list isList' states elementsTyped declares =>
          cases isList.symm.trans isList'
          exact ⟨_, states, _, _, _, elementsTyped, ⟨_, ⟨rfl, rfl⟩, declares⟩, rfl⟩
      | plain _ initializes _ => exact absurd (isList ▸ initializes) not_initializes_list
  · rename_i notList
    refine ((Ty.ofOptionalName_settles declaration.typeName).bind fun stated =>
      (initializerType_decides context declaration.name stated _).bindSettles fun type =>
        declare_settles context declaration.id
          ⟨declaration.name, type, declaration.isMutable⟩).congr fun scopes parts => ?_
    constructor
    · rintro ⟨_, states, _, initializes, declares⟩
      exact .plain states initializes declares
    · intro derived
      cases derived with
      | list isList _ _ _ => exact absurd isList (notList _ _)
      | plain states initializes declares => exact ⟨_, states, _, initializes, declares⟩

/-! ## Functions -/

theorem Judgement.statedOr_iff {otherwise type : Ty} {typeName : Option String} :
    StatedOr otherwise typeName type ↔
      (do return (← Ty.ofOptionalName typeName).getD otherwise : Except TypingError Ty) =
        .ok type := by
  unfold StatedOr
  cases named : Ty.ofOptionalName typeName with
  | error error =>
      constructor
      · rintro ⟨_, states, _⟩
        cases named.symm.trans (stated_iff.mp states)
      · rintro ⟨⟩
  | ok stated =>
      constructor
      · rintro ⟨_, states, rfl⟩
        cases named.symm.trans (stated_iff.mp states)
        rfl
      · rintro ⟨⟩
        exact ⟨stated, stated_iff.mpr named, rfl⟩

private theorem forall₂_iff_mapM {holds : α → β → Prop} {convert : α → Except ε β}
    (same : ∀ value result, holds value result ↔ convert value = .ok result)
    (values : List α) (results : List β) :
    List.Forall₂ holds values results ↔ values.mapM convert = .ok results := by
  induction values generalizing results with
  | nil =>
      rw [List.forall₂_nil_left_iff]
      constructor
      · rintro rfl
        rfl
      · rintro ⟨⟩
        rfl
  | cons head tail induction =>
      rw [List.mapM_cons, List.forall₂_cons_left_iff]
      cases first : convert head with
      | error error =>
          constructor
          · rintro ⟨_, _, held, _⟩
            cases first.symm.trans ((same _ _).mp held)
          · rintro ⟨⟩
      | ok result =>
          constructor
          · rintro ⟨other, others, held, rest, rfl⟩
            cases first.symm.trans ((same _ _).mp held)
            show (tail.mapM convert >>= fun tail => .ok (result :: tail)) = _
            rw [(induction others).mp rest]
            rfl
          · intro converted
            replace converted : (tail.mapM convert >>= fun tail => .ok (result :: tail)) =
                .ok results := converted
            cases rest : tail.mapM convert with
            | error error =>
                rw [rest] at converted
                cases converted
            | ok others =>
                rw [rest] at converted
                cases converted
                exact ⟨result, others, (same _ _).mpr first, (induction others).mpr rest, rfl⟩

namespace Typing

theorem signature_iff {procedure : Procedure} {signature : Signature} :
    procedure.signature = .ok signature ↔ ∃ types result,
      List.Forall₂ (StatedOr .any) (procedure.parameters.map (·.typeName)) types ∧
        StatedOr .nil procedure.resultTypeName result ∧
          signature = ⟨procedure.name, procedure.name, types, result⟩ := by
  have parameters : ∀ types, List.Forall₂ (StatedOr .any)
      (procedure.parameters.map (·.typeName)) types ↔
        (procedure.parameters.mapM fun parameter => do
          return (← Ty.ofOptionalName parameter.typeName).getD .any) = .ok types := by
    intro types
    rw [List.forall₂_map_left_iff]
    apply forall₂_iff_mapM
    exact fun _ _ => statedOr_iff
  unfold Procedure.signature
  simp only [parameters, statedOr_iff]
  cases mapped : procedure.parameters.mapM fun parameter => do
      return (← Ty.ofOptionalName parameter.typeName).getD .any with
  | error error =>
      constructor
      · rintro ⟨⟩
      · rintro ⟨_, _, ⟨⟩, _⟩
  | ok types =>
      cases named : Ty.ofOptionalName procedure.resultTypeName with
      | error error =>
          constructor
          · rintro ⟨⟩
          · rintro ⟨_, _, _, ⟨⟩, _⟩
      | ok stated =>
          constructor
          · rintro ⟨⟩
            exact ⟨types, _, rfl, rfl, rfl⟩
          · rintro ⟨_, _, ⟨⟩, ⟨⟩, rfl⟩
            rfl

theorem signature_settles (procedure : Procedure) :
    Settles (liftM procedure.signature) id fun signature => ∃ types result,
      List.Forall₂ (StatedOr .any) (procedure.parameters.map (·.typeName)) types ∧
        StatedOr .nil procedure.resultTypeName result ∧
          signature = ⟨procedure.name, procedure.name, types, result⟩ :=
  .lift fun signature => by
    rw [← signature_iff]
    simp

theorem declaresAll_iff {context : Context} {parameters : List (String × Ty)}
    {scopes : Scopes} :
    DeclaresAll context.names
        (parameters.map fun parameter => ⟨parameter.1, parameter.2, true⟩) scopes ↔
      ∃ extended, declareParameters context parameters = .ok extended ∧
        extended.names = scopes := by
  induction parameters generalizing context with
  | nil =>
      constructor
      · rintro ⟨⟩
        exact ⟨context, rfl, rfl⟩
      · rintro ⟨_, ⟨⟩, rfl⟩
        exact .nil
  | cons head tail induction =>
      rcases head with ⟨name, type⟩
      rw [declareParameters]
      constructor
      · intro derived
        cases derived with
        | cons first rest =>
            rcases Context.declares_iff.mp first with ⟨middle, accepted, rfl⟩
            rw [accepted]
            exact induction.mp rest
      · rintro ⟨last, declares, rfl⟩
        split at declares
        · rename_i middle accepted
          exact .cons (Context.declares_iff.mpr ⟨middle, accepted, rfl⟩)
            (induction.mpr ⟨last, declares, rfl⟩)
        · cases declares

theorem bodyContext_settles (context : Context) (parameters : List Parameter)
    (signature : Signature) :
    Settles (liftM (bodyContext context (parameters.map (·.name)) signature)) Context.names
      fun scopes => ∃ start,
        Declares (.none :: context.names) ⟨"RETURN", signature.result, false⟩ start ∧
        DeclaresAll start (parameters.zipWith
          (fun parameter type => ⟨parameter.name, type, true⟩) signature.parameters) scopes :=
  .lift fun scopes => by
    let start : Context := { context.nest with
      inner := ⟨[("RETURN", ⟨"RETURN", signature.result, false⟩)], []⟩ }
    have returning : Declares (.none :: context.names) ⟨"RETURN", signature.result, false⟩
        start.names := by
      rw [← Context.names_nest]
      exact Context.declares_iff.mpr ⟨start, rfl, rfl⟩
    have declared : (parameters.zipWith (fun parameter type => ⟨parameter.name, type, true⟩)
          signature.parameters : List Variable) =
        ((parameters.map (·.name)).zip signature.parameters).map
          fun parameter => ⟨parameter.1, parameter.2, true⟩ := by
      simp [List.zip, List.map_zipWith, List.zipWith_map_left]
    rw [declared]
    constructor
    · rintro ⟨_, returning', declaresAll⟩
      cases returning.unique returning'
      exact declaresAll_iff.mp declaresAll
    · intro opens
      exact ⟨_, returning, declaresAll_iff.mpr opens⟩

end Typing

def Procedure.checkAs (context : Context) (procedure : Procedure) (signature : Signature) :
    Check Context :=
  match context.declareFunction? signature with
  | none => throw (.redefinition procedure.name)
  | some extended => do
      Check.recordFunction procedure.id signature
      let body ← bodyContext extended (procedure.parameters.map (·.name)) signature
      Stmt.checkAll body procedure.body
      return extended

theorem Procedure.checkAs_decides (context : Context) (procedure : Procedure)
    (signature : Signature) :
    Decides (procedure.checkAs context signature) Context.names fun scopes parts => ∃ start body,
      DeclaresFunction context.names signature scopes ∧
      Declares (.none :: scopes) ⟨"RETURN", signature.result, false⟩ start ∧
      DeclaresAll start (procedure.parameters.zipWith
        (fun parameter type => ⟨parameter.name, type, true⟩) signature.parameters) body ∧
      Judgement.AllTyped Finite body procedure.body parts := by
  unfold Procedure.checkAs
  split
  · rename_i refused
    refine (Decides.throw _).congr fun scopes parts => ⟨False.elim, ?_⟩
    rintro ⟨_, _, declares, _⟩
    rcases Context.declaresFunction_iff.mp declares with ⟨_, accepted, _⟩
    cases refused.symm.trans accepted
  · rename_i extended accepted
    refine ((Settles.recordFunction procedure.id signature).bind fun _ =>
      (bodyContext_settles extended procedure.parameters signature).bindView
        (fun body scopes parts => ∃ _ : Unit,
          Judgement.AllTyped Finite body procedure.body parts ∧ scopes = extended.names)
        fun body => (Stmt.checkAll_decides body procedure.body).bindSettles fun _ =>
          Settles.pure extended).congr fun scopes parts => ?_
    constructor
    · rintro ⟨_, _, body, ⟨start, returning, declared⟩, _, bodyTyped, rfl⟩
      exact ⟨start, body, Context.declaresFunction_iff.mpr ⟨extended, accepted, rfl⟩,
        returning, declared, bodyTyped⟩
    · rintro ⟨start, body, declares, returning, declared, bodyTyped⟩
      rcases Context.declaresFunction_iff.mp declares with ⟨_, accepted', rfl⟩
      cases accepted.symm.trans accepted'
      exact ⟨(), trivial, body, ⟨start, returning, declared⟩, (), bodyTyped, rfl⟩

theorem Procedure.check_decides (context : Context) (procedure : Procedure) :
    Decides (procedure.check context) Context.names
      (ProcedureTyped Finite context.names procedure) := by
  refine ((signature_settles procedure).bind (procedure.checkAs_decides context)).congr
    fun scopes parts => ?_
  constructor
  · rintro ⟨_, ⟨_, _, parameters, result, rfl⟩, _, _, declares, returning, declared, bodyTyped⟩
    exact ⟨parameters, result, declares, returning, declared, bodyTyped⟩
  · rintro ⟨parameters, result, declares, returning, declared, bodyTyped⟩
    exact ⟨_, ⟨_, _, parameters, result, rfl⟩, _, _, declares, returning, declared, bodyTyped⟩

theorem Typing.foldlM_decides {check : Context → α → Check Context}
    {typed : Scopes → α → Scopes → List (Expr × Ty) → Prop}
    (each : ∀ context declaration,
      Decides (check context declaration) Context.names (typed context.names declaration))
    (declarations : List α) (context : Context) :
    Decides (declarations.foldlM check context) Context.names
      (Judgement.Sequence typed context.names declarations) := by
  induction declarations generalizing context with
  | nil =>
      refine (Settles.pure context).congr fun scopes parts => ?_
      constructor
      · rintro ⟨rfl, rfl⟩
        exact .nil
      · rintro ⟨⟩
        exact ⟨rfl, rfl⟩
  | cons head tail induction =>
      rw [List.foldlM_cons]
      refine ((each context head).bindView (fun scopes => Judgement.Sequence typed scopes tail)
        induction).congr fun scopes parts => ?_
      constructor
      · rintro ⟨_, _, _, first, rest, rfl⟩
        exact .cons first rest
      · intro derived
        cases derived with
        | cons first rest => exact ⟨_, _, _, first, rest, rfl⟩

theorem Typing.requireMain_settles (context : Context) :
    Settles (liftM (requireMain context)) id fun _ => ∃ main,
      Finds (·.functionOf "main" 0) context.names main ∧ main.result = .integer :=
  .lift fun done => by
    simp only [Context.finds_function_iff]
    unfold requireMain
    constructor
    · rintro ⟨main, known, integer⟩
      rw [known]
      exact ⟨done, if_pos integer, trivial⟩
    · rintro ⟨_, accepted, _⟩
      split at accepted
      · cases accepted
      · rename_i main known
        split at accepted
        · exact ⟨main, known, ‹_›⟩
        · cases accepted

/-- A program with distinct numbers for its expressions is accepted where the rules derive
it, and the types of the derivation are noted. -/
theorem Program.check_decides (context : Context) (program : Program)
    (distinct : program.expressionNumbers.Nodup) :
    (∀ annotations, program.check context = .ok annotations → ∃ parts,
      ProgramTyped Finite context.names program parts ∧
        ∀ part ∈ parts, annotations.Notes part.1.node.id part.2) ∧
    ∀ parts, ProgramTyped Finite context.names program parts →
      ∃ annotations, program.check context = .ok annotations := by
  have numbers : ∀ {parts}, ProgramTyped Finite context.names program parts →
      (parts.map (·.1.node.id)).Nodup := by
    intro parts typed
    have same := typed.parts_perm.map (·.node.id)
    rw [List.map_map] at same
    exact same.nodup_iff.mpr distinct
  let checking : Check Unit := do
    let context ← program.globals.foldlM Global.check context
    let context ← program.procedures.foldlM Procedure.check context
    requireMain context
  have opened : program.check context = (checking .empty).map (·.2) := by
    show (checking .empty).bind _ = _
    cases checking .empty <;> rfl
  have decides : Decides checking id fun _ => ProgramTyped Finite context.names program := by
    refine ((foldlM_decides Global.check_decides program.globals context).bindView
      (fun middle _ parts => ∃ last procedureParts mainParts,
        Judgement.Sequence (ProcedureTyped Finite) middle program.procedures last
          procedureParts ∧
        ((∃ main, Finds (·.functionOf "main" 0) last main ∧ main.result = .integer) ∧
          mainParts = []) ∧ parts = procedureParts ++ mainParts) fun middle =>
        (foldlM_decides Procedure.check_decides program.procedures middle).bindView
          (fun last _ parts => (∃ main, Finds (·.functionOf "main" 0) last main ∧
            main.result = .integer) ∧ parts = [])
          fun last => requireMain_settles last).congr fun _ parts => ?_
    constructor
    · rintro ⟨_, _, _, globals, ⟨_, _, _, procedures, ⟨⟨_, finds, integer⟩, rfl⟩, rfl⟩, rfl⟩
      rw [List.append_nil]
      exact ⟨globals, procedures, finds, integer⟩
    · rintro ⟨globals, procedures, finds, integer⟩
      exact ⟨_, _, _, globals, ⟨_, _, [], procedures, ⟨⟨_, finds, integer⟩, rfl⟩, rfl⟩,
        by rw [List.append_nil]⟩
  rw [opened]
  constructor
  · intro annotations accepted
    cases ran : checking .empty with
    | error error =>
        rw [ran] at accepted
        cases accepted
    | ok pair =>
        rw [ran] at accepted
        cases accepted
        rcases decides.sound .empty pair.1 pair.2 ran with ⟨parts, typed, records⟩
        exact ⟨parts, typed, records.notes (numbers typed)⟩
  · intro parts typed
    have lacks : Annotations.empty.Lacks parts :=
      ⟨numbers typed, fun id _ noted => by simp [Annotations.empty] at noted⟩
    rcases decides.complete .empty () parts typed lacks with ⟨_, after, ran, _, _⟩
    exact ⟨after, by rw [ran]; rfl⟩

/-! ## Functions of the host -/

namespace Typing.Context

theorem names_withHosts {context : Context} (outermost : context.outer = [])
    (signatures : List Signature) :
    (context.withHosts signatures).names = [{
      variableOf := context.inner.lookup
      functionOf := fun name arity => (context.inner.lookupFunction name arity).or
        (signatures.find? fun signature =>
          decide ((signature.name, signature.arity) = (name, arity))) }] := by
  induction signatures generalizing context with
  | nil =>
      rw [names, scopes, show (context.withHosts []).outer = [] from outermost]
      simp only [List.find?_nil, Option.or_none]
      rfl
  | cons signature signatures induction =>
      show ((context.withHost signature).withHosts signatures).names = _
      cases declares : context.declareFunction? signature with
      | none =>
          have taken : (context.inner.lookupFunction signature.name signature.arity).isSome :=
            (Scope.defineFunction?_eq_none_iff _ _ _ _).mp (Option.map_eq_none_iff.mp declares)
          rw [withHost, declares, Option.getD_none, induction outermost]
          refine congrArg (fun functions => [Names.mk _ functions]) (funext₂ fun name arity => ?_)
          cases known : context.inner.lookupFunction name arity with
          | some found => rfl
          | none =>
              have other : ¬(signature.name, signature.arity) = (name, arity) := by
                rintro same
                cases same
                rw [known] at taken
                cases taken
              rw [List.find?_cons_of_neg (by simpa using other)]
      | some extended =>
          rw [withHost, declares, Option.getD_some,
            induction ((outer_of_declareFunction? declares).trans outermost)]
          refine congrArg₂ (fun known functions => [Names.mk known functions])
            (funext fun name => ?_) (funext₂ fun name arity => ?_)
          · exact inner_of_declareFunction? declares name
          · rw [inner_lookupFunction_declareFunction? declares]
            by_cases same : (name, arity) = (signature.name, signature.arity)
            · cases same
              rw [if_pos rfl, inner_lookupFunction_of_declareFunction? declares,
                List.find?_cons_of_pos (by simp)]
              rfl
            · rw [if_neg same, List.find?_cons_of_neg (by simpa using Ne.symm same)]

theorem names_standard_withHosts (signatures : List Signature) :
    (standard.withHosts signatures).names = hosts signatures :=
  @names_withHosts empty rfl (.print :: signatures)

end Typing.Context

/-- For every program that was read and every set of host functions, checking succeeds just
where the rules derive the program. There is one typing at most; it has every expression of
the program, and an accepted program is annotated with its types. -/
theorem Program.check_iff_derivable {tokens : List Token} {program : Program}
    (parsed : Program.ofTokens tokens = .ok program) (signatures : List Signature) :
    ((∃ annotations, program.check (Context.standard.withHosts signatures) = .ok annotations) ↔
      ∃ parts, ProgramTyped Finite (hosts signatures) program parts) ∧
    (∀ parts others, ProgramTyped Finite (hosts signatures) program parts →
      ProgramTyped Finite (hosts signatures) program others → parts = others) ∧
    ∀ annotations, program.check (Context.standard.withHosts signatures) = .ok annotations →
      ∀ parts, ProgramTyped Finite (hosts signatures) program parts →
        (parts.map Prod.fst).Perm program.subterms ∧
        ∀ expression type, (expression, type) ∈ parts →
          annotations.typeTable[expression.node.id]? = some type := by
  rcases Program.numbers_perm_range' parsed with ⟨count, numbered⟩
  have distinct : program.numbers.Nodup := numbered.nodup_iff.mpr List.nodup_range'
  have decides := program.check_decides (Context.standard.withHosts signatures)
    (distinct.sublist program.expressionNumbers_sublist)
  rw [Context.names_standard_withHosts] at decides
  rcases decides with ⟨sound, complete⟩
  refine ⟨⟨?_, ?_⟩, fun _ _ => ProgramTyped.unique, ?_⟩
  · rintro ⟨annotations, accepted⟩
    rcases sound annotations accepted with ⟨parts, typed, _⟩
    exact ⟨parts, typed⟩
  · rintro ⟨parts, typed⟩
    exact complete parts typed
  · intro annotations accepted parts typed
    rcases sound annotations accepted with ⟨_, typed', notes⟩
    cases typed.unique typed'
    exact ⟨typed.parts_perm, fun expression type member => notes (expression, type) member⟩

/-- A function of the host gives a type, and so do a list and a decimal. -/
theorem Program.check_iff_derivable_of_host :
    let signatures : List Signature := [⟨"half", "half", [.integer], .decimal⟩]
    ∃ tokens program annotations parts,
      Token.scan "LIST l=[3];FUN main():Integer DO LET x=half(l[0])+1.5;RETURN 1;END" =
        .ok tokens ∧
      Program.ofTokens tokens = .ok program ∧
      program.check (Context.standard.withHosts signatures) = .ok annotations ∧
      ProgramTyped Finite (hosts signatures) program parts ∧
      (parts.map Prod.fst).Perm program.subterms ∧
      ∀ expression type, (expression, type) ∈ parts →
        annotations.typeTable[expression.node.id]? = some type := by
  intro signatures
  have computed :
      ((Token.scan "LIST l=[3];FUN main():Integer DO LET x=half(l[0])+1.5;RETURN 1;END").toOption.any
        fun tokens => (Program.ofTokens tokens).toOption.any fun program =>
          (program.check (Context.standard.withHosts signatures)).toOption.any
            fun _ => true) = true := by decide +kernel
  rcases exists_ok_of_any computed with ⟨tokens, scanned, computed⟩
  rcases exists_ok_of_any computed with ⟨program, parsed, computed⟩
  rcases exists_ok_of_any computed with ⟨annotations, accepted, _⟩
  have decided := Program.check_iff_derivable parsed signatures
  rcases decided.1.mp ⟨annotations, accepted⟩ with ⟨parts, typed⟩
  exact ⟨tokens, program, annotations, parts, scanned, parsed, accepted, typed,
    decided.2.2 annotations accepted parts typed⟩

end Plc
