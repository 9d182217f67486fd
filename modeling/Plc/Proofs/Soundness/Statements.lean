import Plc.Proofs.Soundness.Expressions

/-! Statements meet what is expected of them when their parts do. -/

namespace Plc

open Typing

namespace Setting

variable {setting : Setting} {bodies : Context → Prop} {context : Context}
  {machine : Machine} {bound : Nat} {result : Ty}

theorem StatementsFit.mono {smaller larger : List Stmt}
    (fit : setting.StatementsFit result larger)
    (part : ∀ statement ∈ smaller, statement ∈ larger) : setting.StatementsFit result smaller :=
  fun strict statement member => fit strict statement (part statement member)

theorem StatementsFit.left {left right : List Stmt}
    (fit : setting.StatementsFit result (left ++ right)) : setting.StatementsFit result left :=
  fit.mono fun _ member => List.mem_append_left _ member

theorem StatementsFit.right {left right : List Stmt}
    (fit : setting.StatementsFit result (left ++ right)) : setting.StatementsFit result right :=
  fit.mono fun _ member => List.mem_append_right _ member

theorem StatementsFit.tail {head : Stmt} {tail : List Stmt}
    (fit : setting.StatementsFit result (head :: tail)) : setting.StatementsFit result tail :=
  fit.mono fun _ member => List.mem_cons_of_mem _ member

/-! ## Blocks -/

theorem block_ensures {body : List Stmt}
    (typed : Stmt.AllTyped setting.annotations.Notes context.nest body)
    (termsFit : setting.TermsFit (Stmt.subtermsOfAll body))
    (statementsFit : setting.StatementsFit result (Stmt.nestedInAll body))
    (ready : setting.Ready bodies context machine)
    (meets : setting.Meets (Moment.block bound machine body)) :
    setting.Sound (Moment.block bound machine body) ∧
      (Run.inChild (Stmt.executeAll (Machine.invoke bound) bound body)).Ensures machine
        (setting.Closes result (Stmt.blockReturns body)) setting.Halts := by
  have apart : machine.scopes.places.size ≠ Machine.global :=
    Nat.ne_of_gt ready.present
  have passes := meets bodies context.nest result typed termsFit statementsFit
    ready.child apart
  refine ⟨passes.1, Run.ensures_inChild (Run.ensures_inScope ?_)⟩
  exact passes.2.mono (fun _ _ _ closes => ⟨closes.1, closes.2.of_eq rfl rfl⟩)
    fun _ _ halts => ⟨halts.1, halts.2.of_eq rfl rfl⟩

theorem inChild_declares (bound : Nat) (body : List Stmt) :
    (Run.inChild (Stmt.executeAll (Machine.invoke bound) bound body)).Declares [] :=
  (Stmt.executeAll_declares (Machine.invoke_declares bound) bound body).inChild

/-! ## Declarations and assignments -/

theorem initial_leads {typeName : Option String} {stated : Option Ty}
    {value : Option Expr} {type : Ty} (named : Ty.ofOptionalName typeName = .ok stated)
    (initializes : Initializes setting.annotations.Notes context stated value type)
    (opens : setting.strict → setting.Opens typeName value)
    (termsFit : setting.TermsFit ((value.map Expr.subterms).getD []))
    (ready : setting.Ready bodies context machine) :
    setting.Leads (Moment.initialParts bound machine value)
      (Expr.evaluateInitial (Machine.invoke bound) value) machine (setting.Gives type) := by
  cases initializes with
  | @fits value stated actual typed accepts =>
      have leads : setting.Leads [⟨bound, .evaluate value, machine⟩]
          (value.evaluate (Machine.invoke bound)) machine (setting.Gives actual) :=
        .single fun meets => meets bodies context actual (.typed typed) termsFit ready
      exact leads.mono fun _ _ _ given =>
        ⟨fun strict => .of_accepts accepts (given.1 strict), given.2⟩
  | infers typed =>
      exact .single fun meets => meets bodies context type (.typed typed) termsFit ready
  | unset =>
      refine .none (Run.ensures_pure ⟨fun strict => ?_, ready.store⟩)
      rcases opens strict with present | suits
      · cases present
      · exact suits type named

theorem declaration_leads {id : Nat} {name : String} {typeName : Option String}
    {stated : Option Ty} {value : Option Expr} {type : Ty} {extended : Context}
    (named : Ty.ofOptionalName typeName = .ok stated)
    (initializes : Initializes setting.annotations.Notes context stated value type)
    (declares : context.declare? ⟨name, type, true⟩ = some extended)
    (termsFit : setting.TermsFit (Stmt.declaration id name typeName value).subterms)
    (statementsFit : setting.StatementsFit result (Stmt.declaration id name typeName value).nested)
    (ready : setting.Ready bodies context machine) :
    setting.Leads (Moment.executeParts bound machine (.declaration id name typeName value))
      ((Stmt.declaration id name typeName value).execute (Machine.invoke bound) bound) machine
      fun flow after => setting.Closes result false flow after ∧
        (flow = .normal → setting.Agrees bodies extended after after.current) := by
  have opens : setting.strict → setting.Opens typeName value := fun strict =>
    statementsFit strict _ List.mem_cons_self
  refine (initial_leads named initializes opens termsFit ready).bind
    fun initial middle ran given => ?_
  have next := ready.run (Expr.evaluateInitial_declares (Machine.invoke_declares bound) value)
    ran given.2
  have defined : setting.Leads
      [⟨bound, .define (.plain typeName value) middle.current name true initial, middle⟩]
      (Run.define middle.current name true initial >>= fun _ => pure Flow.normal) middle
      fun flow after => setting.Closes result false flow after ∧
        (flow = .normal → setting.Agrees bodies extended after after.current) := by
    refine .single_bind (fun meets => meets bodies context extended type declares
      (fun strict => ⟨given.1 strict, Program.declaredType_of_initializes named initializes⟩)
      next.agrees next.store) fun _ after ran agrees => ?_
    have current : after.current = middle.current := by
      have framed := Machine.Framed.defineVariable middle middle.current name .any true initial
      have same : after = (middle.defineVariable middle.current name .any true initial).2 :=
        (congrArg Prod.snd ran).symm
      rw [same]
      exact framed.current
    refine Run.ensures_pure ⟨⟨rfl, agrees.2⟩, fun _ => ?_⟩
    rw [current]
    exact agrees.1
  exact defined

theorem ensures_mutableVariable {name : String} {found : Variable}
    (ready : setting.Ready bodies context machine) (lookup : context.lookup name = some found)
    (named : setting.strict → name ≠ "RETURN") :
    (Expr.assign.mutableVariable name).Ensures machine
      (fun target after => after = machine ∧ (setting.strict →
        target.cell < machine.cells.size ∧ setting.Holds target.cell found.type))
      setting.Halts := by
  apply (ensures_findVariable ready lookup).bind
  rintro target _ _ ⟨rfl, finds⟩
  split
  · refine ⟨rfl, fun strict => ?_⟩
    rcases finds strict with ⟨present, stored, holds, rfl | ⟨isReturn, _⟩⟩
    · exact ⟨present, holds⟩
    · exact absurd isReturn (named strict)
  · refine Run.ensures_fault ⟨?_, ready.store⟩
    rintro _ ⟨rfl⟩
    exact ⟨rfl, fun _ => rfl⟩

theorem assign_access_leads {node : Node} {name : String} {value : Expr} {found : Variable}
    {actual : Ty} (lookup : context.lookup name = some found)
    (valueTyped : value.HasType setting.annotations.Notes context actual)
    (accepts : found.type.accepts actual = true)
    (termsFit : setting.TermsFit ((Expr.access node name).subterms ++ value.subterms))
    (named : setting.strict → name ≠ "RETURN")
    (ready : setting.Ready bodies context machine) :
    setting.Leads (Moment.assignParts bound machine value (.access node name))
      ((Expr.access node name).assign (Machine.invoke bound) value) machine
      fun _ after => setting.StoreFits after := by
  refine .skip_bind (ensures_mutableVariable ready lookup named) ?_
  rintro target _ _ ⟨rfl, holds⟩
  refine .single_bind (fun meets => meets bodies context actual (.typed valueTyped)
    termsFit.right ready) fun written after _ given => ?_
  exact given.2.setCell fun strict =>
    ⟨found.type, (holds strict).2, .of_accepts accepts (given.1 strict)⟩

theorem ensures_writeElement {type : Ty} {cell : Nat} {value : Value}
    (lenient : ¬setting.strict.errors) (store : setting.StoreFits machine)
    (present : setting.strict → cell < machine.cells.size)
    (suits : setting.strict → setting.Suits type value) (offset : Value) :
    (Run.writeElement (machine.cell cell) offset value).Ensures machine
      (fun _ after => setting.Replaced cell type after) setting.Halts := by
  apply (ensures_locate lenient store (machine.cell cell) offset).bind
  rintro ⟨id, index⟩ _ _ ⟨rfl, isList, _⟩
  exact ⟨_, id, index, value, store, present, isList, suits, rfl⟩

theorem assign_element_leads {node : Node} {name : String} {index value : Expr}
    {found : Variable} {actual : Ty}
    (indexTyped : index.HasType setting.annotations.Notes context .integer)
    (lookup : context.lookup name = some found)
    (valueTyped : value.HasType setting.annotations.Notes context actual)
    (termsFit : setting.TermsFit ((Expr.element node name index).subterms ++ value.subterms))
    (named : setting.strict → name ≠ "RETURN")
    (ready : setting.Ready bodies context machine) :
    setting.Leads (Moment.assignParts bound machine value (.element node name index))
      ((Expr.element node name index).assign (Machine.invoke bound) value) machine
      fun _ after => ∃ target, machine.scopes.lookup machine.current name = some target ∧
        (setting.strict → setting.Holds target.cell found.type) ∧
        setting.Replaced target.cell actual after := by
  have lenient : ¬setting.strict.errors := fun errors =>
    termsFit.fragment errors _ List.mem_cons_self
  refine .skip_bind (ensures_mutableVariable ready lookup named) ?_
  rintro target _ sought ⟨rfl, holds⟩
  have looked := (Expr.mutableVariable_eq_ok sought).1
  have indexQuiet := index.evaluate_declares (Machine.invoke_declares bound)
  have valueQuiet := value.evaluate_declares (Machine.invoke_declares bound)
  refine .cons_bind (fun meets => meets bodies context .integer (.typed indexTyped)
    termsFit.left.tail ready) fun offset middle indexRan given => ?_
  have next := ready.run indexQuiet indexRan given.2
  refine .single_bind (fun meets => meets bodies context actual (.typed valueTyped)
    termsFit.right next) fun written after valueRan given => ?_
  have present : setting.strict → target.cell < after.cells.size := fun strict =>
    Nat.lt_of_lt_of_le (holds strict).1
      (Nat.le_trans (indexQuiet.framed indexRan).cells (valueQuiet.framed valueRan).cells)
  have read : (Run.readCell target.cell).Ensures after
    (fun container later => container = after.cell target.cell ∧ later = after)
    setting.Halts := ⟨rfl, rfl⟩
  apply read.bind
  rintro _ _ _ ⟨rfl, rfl⟩
  refine (ensures_writeElement lenient given.2 present given.1 offset).mono ?_
    fun _ _ halts => halts
  exact fun _ _ _ replaced => ⟨target, looked, fun strict => (holds strict).2, replaced⟩

theorem assign_leads {receiver value : Expr} {target actual : Ty}
    (included : setting.start.Includes ⟨bound, .execute (.assignment receiver value), machine⟩)
    (receives : receiver.isReceiver = true)
    (receiverTyped : receiver.HasType setting.annotations.Notes context target)
    (valueTyped : value.HasType setting.annotations.Notes context actual)
    (accepts : target.accepts actual = true)
    (termsFit : setting.TermsFit (receiver.subterms ++ value.subterms))
    (statementFits : setting.strict → setting.StatementFits result (.assignment receiver value))
    (ready : setting.Ready bodies context machine) :
    setting.Leads (Moment.assignParts bound machine value receiver)
      (receiver.assign (Machine.invoke bound) value) machine
      fun _ after => setting.StoreFits after := by
  cases receiverTyped with
  | @access node name found lookup _ =>
      refine assign_access_leads lookup valueTyped accepts termsFit (fun strict => ?_) ready
      rintro rfl
      exact (statementFits strict).1 node rfl
  | @element node name index found indexTyped lookup note =>
      have named : setting.strict → name ≠ "RETURN" := by
        rintro strict rfl
        exact (statementFits strict).1 node rfl
      refine (assign_element_leads indexTyped lookup valueTyped termsFit named ready).mono ?_
      rintro _ after ran ⟨holder, looked, holds, before, id, position, written, store, present,
        isList, suits, rfl⟩
      refine store.setElement fun strict type listed => ?_
      by_cases wide : found.type = .any ∨ found.type = .comparable
      · have executed : ((Stmt.assignment (.element node name index) value).execute
            (Machine.invoke bound) bound).run machine = (.ok .normal,
              { before with memory := before.memory.setElement id position written }) := by
          rw [Stmt.execute, Run.run_bind, ran]
          rfl
        have noted : setting.annotations.Notes node.id .any ∨
            setting.annotations.Notes node.id .comparable := by
          rcases wide with same | same
          · exact .inl (same ▸ note)
          · exact .inr (same ▸ note)
        rcases (statementFits strict).2 _ id type included
          ⟨node, name, index, holder, _, rfl, rfl, looked, executed, isList⟩ listed noted with
          ⟨other, noted, accepted⟩
        cases Option.some.inj (valueTyped.note.symm.trans noted)
        exact .of_accepts accepted (suits strict)
      · rw [not_or] at wide
        rw [← store.eq_of_listed strict (holds strict) (present strict) isList listed wide.1 wide.2]
        exact .of_accepts accepts (suits strict)
  | literal _ _ | group _ _ _ | binary _ _ _ _ | call _ _ _ _ => cases receives

/-! ## Conditions -/

theorem ensures_asBoolean {value : Value} (given : setting.Gives .boolean value machine) :
    (Run.check value.asBoolean).Ensures machine (fun _ after => after = machine)
      setting.Halts := by
  refine Run.ensures_check (fun _ _ => rfl) fun error failed => ?_
  refine halts_of_lenient (fun errors => ?_) (value.asBoolean_nameless error failed) given.2
  rcases Value.eq_boolean_of_admits ((given.1 (setting.strict.exact errors).1).admits errors) with
    ⟨truth, rfl⟩
  cases failed

theorem ensures_equal (store : setting.StoreFits machine) (left right : Value) :
    (Run.equal left right).Ensures machine (fun _ after => after = machine) setting.Halts := by
  have opened : (Run.equal left right).run machine =
      (Value.finished (Value.equal? machine.memory.lists left right), machine) := rfl
  rw [Run.Ensures, opened]
  cases Value.equal? machine.memory.lists left right with
  | some same => rfl
  | none => exact halts_unfinished store

theorem Closes.weaken {always less : Bool} {flow : Flow} {after : Machine}
    (closes : setting.Closes result always flow after) (implies : always = false → less = false) :
    setting.Closes result less flow after := by
  cases flow with
  | normal => exact ⟨implies closes.1, closes.2⟩
  | returned value => exact closes

theorem conditional_leads {condition : Expr} {whenTrue whenFalse : List Stmt}
    (conditionTyped : condition.HasType setting.annotations.Notes context .boolean)
    (trueTyped : Stmt.AllTyped setting.annotations.Notes context.nest whenTrue)
    (falseTyped : Stmt.AllTyped setting.annotations.Notes context.nest whenFalse)
    (termsFit : setting.TermsFit (Stmt.conditional condition whenTrue whenFalse).subterms)
    (statementsFit :
      setting.StatementsFit result (Stmt.conditional condition whenTrue whenFalse).nested)
    (ready : setting.Ready bodies context machine) :
    setting.Leads (Moment.executeParts bound machine (.conditional condition whenTrue whenFalse))
      ((Stmt.conditional condition whenTrue whenFalse).execute (Machine.invoke bound) bound)
      machine (setting.Closes result
        (Stmt.blockReturns whenTrue && Stmt.blockReturns whenFalse)) := by
  refine .cons_bind (fun meets => meets bodies context .boolean (.typed conditionTyped)
    termsFit.left.left ready) fun value middle ran given => ?_
  have next := ready.run (condition.evaluate_declares (Machine.invoke_declares bound)) ran given.2
  refine .skip_bind (ensures_asBoolean given) ?_
  rintro holds checked _ rfl
  cases holds with
  | true =>
      have leads : setting.Leads [Moment.block bound checked whenTrue]
          (Run.inChild (Stmt.executeAll (Machine.invoke bound) bound whenTrue)) checked
          (setting.Closes result (Stmt.blockReturns whenTrue)) :=
        .single (block_ensures trueTyped termsFit.left.right statementsFit.tail.left
          next)
      exact leads.mono fun _ _ _ closes => closes.weaken fun notAlways => by simp [notAlways]
  | false =>
      have leads : setting.Leads [Moment.block bound checked whenFalse]
          (Run.inChild (Stmt.executeAll (Machine.invoke bound) bound whenFalse)) checked
          (setting.Closes result (Stmt.blockReturns whenFalse)) :=
        .single (block_ensures falseTyped termsFit.right statementsFit.tail.right next)
      exact leads.mono fun _ _ _ closes => closes.weaken fun notAlways => by simp [notAlways]

/-! ## Statements -/

theorem execute_leads {statement : Stmt} {extended : Context}
    (included : setting.start.Includes ⟨bound, .execute statement, machine⟩)
    (typed : statement.Typed setting.annotations.Notes context extended)
    (termsFit : setting.TermsFit statement.subterms)
    (statementsFit : setting.StatementsFit result statement.nested)
    (ready : setting.Ready bodies context machine) :
    setting.Leads (Moment.executeParts bound machine statement)
      (statement.execute (Machine.invoke bound) bound) machine
      fun flow after => setting.Closes result statement.returnsAlways flow after ∧
        (flow = .normal → setting.Agrees bodies extended after after.current) := by
  -- only a declaration changes what is known
  have unchanged : ∀ {always : Bool},
      (statement.execute (Machine.invoke bound) bound).Declares [] →
      setting.Leads (Moment.executeParts bound machine statement)
        (statement.execute (Machine.invoke bound) bound) machine (setting.Closes result always) →
      setting.Leads (Moment.executeParts bound machine statement)
        (statement.execute (Machine.invoke bound) bound) machine
        fun flow after => setting.Closes result always flow after ∧
          (flow = .normal → setting.Agrees bodies context after after.current) :=
    fun declares leads => leads.mono fun _ _ ran closes =>
      ⟨closes, fun _ => (ready.run declares ran closes.2).agrees⟩
  have declares := statement.execute_declares (Machine.invoke_declares bound) bound
  cases typed with
  | expression _ typed =>
      exact unchanged declares (.single_bind
        (fun meets => meets bodies context _ (.typed typed) termsFit ready)
        fun _ _ _ given => ⟨rfl, given.2⟩)
  | declaration named initializes declared =>
      exact declaration_leads named initializes declared termsFit statementsFit ready
  | assignment receives receiverTyped valueTyped accepts =>
      exact unchanged declares
        ((assign_leads included receives receiverTyped valueTyped accepts termsFit
          (fun strict => statementsFit strict _ List.mem_cons_self) ready).then
          fun _ _ _ store => ⟨rfl, store⟩)
  | conditional conditionTyped _ trueTyped falseTyped =>
      exact unchanged declares (conditional_leads conditionTyped trueTyped falseTyped termsFit
        statementsFit ready)
  | @switch _ condition cases type conditionTyped casesTyped =>
      refine unchanged declares (.cons_bind (fun meets => meets bodies context type
        (.typed conditionTyped) termsFit.left ready) fun value middle ran given => ?_)
      have next := ready.run (condition.evaluate_declares (Machine.invoke_declares bound)) ran
        given.2
      exact .single fun meets => meets bodies context type result casesTyped termsFit.right
        statementsFit.tail next
  | loop conditionTyped bodyTyped =>
      exact unchanged declares (.single fun meets => meets bodies context result conditionTyped
        bodyTyped termsFit statementsFit.tail ready)
  | @returns _ value _ actual _ typed _ =>
      refine unchanged declares (.single_bind (fun meets => meets bodies context actual
        (.typed typed) termsFit ready) fun given after _ gives => ⟨fun strict => ?_, gives.2⟩)
      have fits : setting.StatementFits result (.returns value) :=
        statementsFit strict _ List.mem_cons_self
      rcases fits _ included rfl with ⟨other, noted, accepts⟩
      cases Option.some.inj (typed.note.symm.trans noted)
      exact .of_accepts accepts (gives.1 strict)

theorem execute_meets {statement : Stmt}
    (included : setting.start.Includes ⟨bound, .execute statement, machine⟩)
    (known : ∀ part ∈ Moment.executeParts bound machine statement, setting.Meets part) :
    setting.Meets ⟨bound, .execute statement, machine⟩ := by
  intro bodies context extended result typed termsFit statementsFit ready _
  have leads : setting.Leads (Moment.executeParts bound machine statement)
      (statement.execute (Machine.invoke bound) bound) machine _ :=
    execute_leads included typed termsFit statementsFit ready
  exact leads.passes known ready.store rfl (fun _ _ closes => closes.1.2) (fun _ => trivial)
    fun _ => trivial

/-! ## Blocks of statements -/

theorem Ready.execute {statement : Stmt} {extended : Context} {after : Machine}
    {flow : Except Stop Flow} (ready : setting.Ready bodies context machine)
    (apart : machine.current ≠ Machine.global)
    (ran : (statement.execute (Machine.invoke bound) bound).run machine = (flow, after))
    (agrees : setting.Agrees bodies extended after after.current)
    (store : setting.StoreFits after) :
    setting.Ready bodies extended after ∧ after.current ≠ Machine.global := by
  have framed := (statement.execute_declares (Machine.invoke_declares bound) bound).framed ran
  refine ⟨⟨ready.toSteady.framed framed ?_ store, agrees⟩, ?_⟩
  · intro name gained
    exact apart gained.1.symm
  · rw [framed.current]
    exact apart

theorem executeAll_meets {statements : List Stmt}
    (known : ∀ part ∈ Moment.parts ⟨bound, .executeAll statements, machine⟩,
      setting.Meets part) :
    setting.Meets ⟨bound, .executeAll statements, machine⟩ := by
  intro bodies context result typed termsFit statementsFit ready apart
  refine Leads.passes known ?_ ready.store rfl (fun _ _ closes => closes.2) (fun _ => trivial)
    fun _ => trivial
  cases typed with
  | nil => exact .none (Run.ensures_pure ⟨rfl, ready.store⟩)
  | @cons _ extended head tail headTyped tailTyped =>
      refine .cons_bind (fun meets => meets bodies context extended result headTyped termsFit.left
        statementsFit.left ready apart) fun flow after ran ends => ?_
      cases flow with
      | returned value => exact .none (Run.ensures_pure ⟨ends.1.1, ends.1.2⟩)
      | normal =>
          have next := ready.execute apart ran (ends.2 rfl) ends.1.2
          have leads : setting.Leads [⟨bound, .executeAll tail, after⟩]
              (Stmt.executeAll (Machine.invoke bound) bound tail) after
              (setting.Closes result (Stmt.blockReturns tail)) :=
            .single fun meets => meets bodies extended result tailTyped termsFit.right
              statementsFit.right next.1 next.2
          have notHead : head.returnsAlways = false := ends.1.1
          exact leads.mono fun _ _ _ closes => closes.weaken fun notTail => by
            simp [Stmt.blockReturns, notHead, notTail]

theorem select_meets {value : Value} {cases : List Case}
    (known : ∀ part ∈ Moment.selectParts bound machine value cases, setting.Meets part) :
    setting.Meets ⟨bound, .select value cases, machine⟩ := by
  intro bodies context type result typed termsFit statementsFit ready
  refine Leads.passes known ?_ ready.store rfl (fun _ _ closes => closes.2) (fun _ => trivial)
    fun _ => trivial
  cases typed with
  | nil => exact .none (Run.ensures_pure ⟨rfl, ready.store⟩)
  | @default _ _ body bodyTyped =>
      have leads : setting.Leads [Moment.block bound machine body]
          (Run.inChild (Stmt.executeAll (Machine.invoke bound) bound body)) machine
          (setting.Closes result (Stmt.blockReturns body)) :=
        .single (block_ensures bodyTyped termsFit.left.right statementsFit.left ready)
      exact leads.mono fun _ _ _ closes => closes.weaken fun notAlways => by
        simp [Case.allReturn, notAlways]
  | @cons _ _ actual test body tail testTyped _ bodyTyped others tailTyped =>
      refine .cons_bind (fun meets => meets bodies context actual (.typed testTyped)
        termsFit.left.left ready) fun tested middle ran given => ?_
      have next := ready.run (test.evaluate_declares (Machine.invoke_declares bound)) ran given.2
      refine .skip_bind (ensures_equal given.2 tested value) ?_
      rintro same checked _ rfl
      cases same with
      | true =>
          have leads : setting.Leads [Moment.block bound checked body]
              (Run.inChild (Stmt.executeAll (Machine.invoke bound) bound body)) checked
              (setting.Closes result (Stmt.blockReturns body)) :=
            .single (block_ensures bodyTyped termsFit.left.right statementsFit.left next)
          exact leads.mono fun _ _ _ closes => closes.weaken fun notAlways => by
            simp [Case.allReturn, notAlways]
      | false =>
          have leads : setting.Leads [⟨bound, .select value tail, checked⟩]
              (Case.executeAll (Machine.invoke bound) bound value tail) checked
              (setting.Closes result (!tail.isEmpty && Case.allReturn tail)) :=
            .single fun meets => meets bodies context type result tailTyped termsFit.right
              statementsFit.right next
          refine leads.mono fun _ _ _ closes => closes.weaken fun notAlways => ?_
          rw [others] at notAlways
          have notTail : Case.allReturn tail = false := notAlways
          simp [Case.allReturn, notTail]

theorem iterate_meets {condition : Expr} {body : List Stmt} {rounds : Nat}
    (known : ∀ part ∈ Moment.iterateParts bound machine condition body rounds,
      setting.Meets part) :
    setting.Meets ⟨bound, .iterate condition body rounds, machine⟩ := by
  intro bodies context result conditionTyped bodyTyped termsFit statementsFit ready
  refine Leads.passes known ?_ ready.store rfl (fun _ _ closes => closes.2) (fun _ => trivial)
    fun _ => trivial
  cases rounds with
  | zero => exact .none (halts_unfinished ready.store)
  | succ rounds =>
      rw [Run.repeatWhile, bind_assoc]
      refine .cons_bind (fun meets => meets bodies context .boolean (.typed conditionTyped)
        termsFit.left ready) fun value middle ran given => ?_
      have next := ready.run (condition.evaluate_declares (Machine.invoke_declares bound)) ran
        given.2
      refine .skip_bind (ensures_asBoolean given) ?_
      rintro again checked _ rfl
      cases again with
      | false => exact .none (Run.ensures_pure ⟨rfl, given.2⟩)
      | true =>
          refine .cons_bind (block_ensures bodyTyped termsFit.right statementsFit next)
            fun flow left ran closes => ?_
          cases flow with
          | returned value => exact .none (Run.ensures_pure closes)
          | normal =>
              have again := next.run (inChild_declares bound body) ran closes.2
              exact .single fun meets => meets bodies context result conditionTyped bodyTyped
                termsFit statementsFit again

end Setting

end Plc
