import Plc.Proofs.Soundness.Expectation

/-! Expressions meet what is expected of them when their parts do. -/

namespace Plc

open Typing

namespace Setting

variable {setting : Setting} {bodies : Context → Prop} {context : Context}
  {machine : Machine} {bound : Nat}

/-! ## The fragment in parts of a program -/

theorem TermsFit.mono {smaller larger : List Expr} (fit : setting.TermsFit larger)
    (part : ∀ term ∈ smaller, term ∈ larger) : setting.TermsFit smaller where
  each strict term member := fit.each strict term (part term member)
  fragment errors term member := fit.fragment errors term (part term member)

theorem TermsFit.left {left right : List Expr} (fit : setting.TermsFit (left ++ right)) :
    setting.TermsFit left := fit.mono fun _ member => List.mem_append_left _ member

theorem TermsFit.right {left right : List Expr} (fit : setting.TermsFit (left ++ right)) :
    setting.TermsFit right := fit.mono fun _ member => List.mem_append_right _ member

theorem TermsFit.tail {head : Expr} {tail : List Expr} (fit : setting.TermsFit (head :: tail)) :
    setting.TermsFit tail := fit.mono fun _ member => List.mem_cons_of_mem _ member

theorem TermsFit.of_lenient {terms : List Expr} (lenient : ¬setting.strict) :
    setting.TermsFit terms where
  each strict := absurd strict lenient
  fragment errors := absurd (setting.strict.exact errors).1 lenient

theorem definedOn_of_inFragment {node : Node} {operator : Operator} {left right : Expr}
    {leftType rightType : Ty}
    (fits : (Expr.binary node operator left right).InFragment setting.annotations)
    (leftNoted : setting.annotations.Notes left.node.id leftType)
    (rightNoted : setting.annotations.Notes right.node.id rightType) :
    operator.DefinedOn leftType rightType := by
  have isNumber : ∀ {operand : Expr} {type : Ty},
      setting.annotations.Notes operand.node.id type →
      setting.annotations.typeTable[operand.node.id]? = some .integer ∨
        setting.annotations.typeTable[operand.node.id]? = some .decimal →
      type = .integer ∨ type = .decimal := by
    rintro operand type noted (integer | decimal)
    · exact .inl (Option.some.inj (noted.symm.trans integer))
    · exact .inr (Option.some.inj (noted.symm.trans decimal))
  refine ⟨fun ordering => ?_, fun isPower => ?_⟩
  · have ordered := fits.1 ordering
    exact ⟨isNumber leftNoted (ordered left List.mem_cons_self),
      isNumber rightNoted (ordered right (List.mem_cons_of_mem _ List.mem_cons_self))⟩
  · rintro rfl
    exact fits.2 isPower leftNoted

/-! ## Steps without parts -/

theorem halts_of_lenient {error : RuntimeError} (lenient : ¬setting.strict.errors)
    (nameless : error.isNaming = false) (store : setting.StoreFits machine) :
    setting.Halts (.fault error) machine := by
  refine ⟨?_, store⟩
  rintro _ ⟨rfl⟩
  exact ⟨nameless, fun errors => absurd errors lenient⟩

theorem halts_unfinished (store : setting.StoreFits machine) :
    setting.Halts .unfinished machine := by
  refine ⟨?_, store⟩
  rintro _ ⟨⟩

/-- What the name of a variable of the type stands for at the machine: a variable of that
type, or a global in place of the result of a function. -/
def Finds (setting : Setting) (machine : Machine) (name : String) (type : Ty)
    (target : Machine.Variable) : Prop :=
  target.cell < machine.cells.size ∧ ∃ stored, setting.Holds target.cell stored ∧
    (stored = type ∨ name = "RETURN" ∧ machine.current ≠ Machine.global ∧
      machine.scopes.lookup machine.current name = some target ∧
      (machine.scopes.scope Machine.global).lookup name = some target)

/-- A declared variable is found. Only `RETURN` is not a variable at run time. -/
theorem ensures_findVariable {name : String} {found : Variable}
    (ready : setting.Ready bodies context machine) (lookup : context.lookup name = some found) :
    (Run.findVariable name).Ensures machine
      (fun target after => after = machine ∧
        (setting.strict → setting.Finds machine name found.type target))
      setting.Halts := by
  cases ready.agrees.stands name found lookup with
  | @defined target looked present holds =>
      have opened : (Run.findVariable name).run machine = (.ok target, machine) := by
        simp only [Run.findVariable, ExceptT.run, ExceptT.mk, looked]
      rw [Run.Ensures, opened]
      exact ⟨rfl, fun strict => ⟨present, found.type, holds strict, .inl rfl⟩⟩
  | result isReturn apart _ looked global =>
      cases outermost : (machine.scopes.scope Machine.global).lookup name with
      | none =>
          have opened : (Run.findVariable name).run machine =
              (.error (.fault (.undefinedVariable name)), machine) := by
            simp only [Run.findVariable, ExceptT.run, ExceptT.mk, looked, outermost]
          rw [Run.Ensures, opened]
          subst isReturn
          refine ⟨?_, ready.store⟩
          rintro _ ⟨rfl⟩
          exact ⟨rfl, fun _ => rfl⟩
      | some target =>
          rw [outermost] at looked
          have opened : (Run.findVariable name).run machine = (.ok target, machine) := by
            simp only [Run.findVariable, ExceptT.run, ExceptT.mk, looked]
          rw [Run.Ensures, opened]
          refine ⟨rfl, fun strict => ?_⟩
          rcases global target outermost with ⟨present, holds⟩
          rcases holds strict with ⟨stored, holds⟩
          exact ⟨present, stored, holds, .inr ⟨isReturn, apart, looked, outermost⟩⟩

/-- What is found where a name is read has a type that is accepted there. -/
theorem Finds.accepts {moment : Moment} {term : Expr} {node : Node} {name : String} {type : Ty}
    {target : Machine.Variable} (finds : setting.Finds machine name type target)
    (fits : setting.ReadFits term) (read : term.read? = some (node, name))
    (note : setting.annotations.Notes term.node.id type)
    (included : setting.start.Includes moment) (reads : moment.Reads term machine) :
    target.cell < machine.cells.size ∧
      ∃ stored, setting.Holds target.cell stored ∧ type.accepts stored = true := by
  rcases finds with ⟨present, stored, holds, rfl | ⟨rfl, apart, looked, global⟩⟩
  · exact ⟨present, stored, holds, stored.accepts_self⟩
  · rcases fits moment target.cell stored included
      ⟨node, machine, target, read, reads, apart, looked, global, rfl⟩ holds with
      ⟨noted, same, accepts⟩
    cases Option.some.inj (note.symm.trans same)
    exact ⟨present, stored, holds, accepts⟩

theorem ensures_findFunction {name : String} {arity position : Nat} {signature : Signature}
    (agrees : setting.Agrees bodies context machine position)
    (lookup : context.lookupFunction name arity = some signature) :
    (Run.findFunction position name arity).Ensures machine
      (fun function after => after = machine ∧ signature.arity = arity ∧
        setting.Realises bodies function signature)
      setting.Halts := by
  rcases agrees.functions name arity signature lookup with
    ⟨same, function, looked, realises⟩
  have opened : (Run.findFunction position name arity).run machine =
      (.ok function, machine) := by
    simp only [Run.findFunction, ExceptT.run, ExceptT.mk, looked]
  rw [Run.Ensures, opened]
  exact ⟨rfl, same, realises⟩

theorem ensures_readCell {cell : Nat} {type : Ty} (store : setting.StoreFits machine)
    (holds : setting.strict → cell < machine.cells.size ∧
      ∃ stored, setting.Holds cell stored ∧ type.accepts stored = true) :
    (Run.readCell cell).Ensures machine
      (fun value after => after = machine ∧ (setting.strict → setting.Suits type value))
      setting.Halts := by
  refine ⟨rfl, fun strict => ?_⟩
  rcases holds strict with ⟨present, stored, holds, accepts⟩
  exact .of_accepts accepts (store.cells strict cell stored holds present)

theorem ensures_check_lenient {result : Except RuntimeError α} (lenient : ¬setting.strict.errors)
    (nameless : Nameless result) (store : setting.StoreFits machine) :
    (Run.check result).Ensures machine (fun value after => after = machine ∧ result = .ok value)
      setting.Halts :=
  Run.ensures_check (fun _ given => ⟨rfl, given⟩) fun error failed =>
    halts_of_lenient lenient (nameless error failed) store

theorem ensures_locate (lenient : ¬setting.strict.errors) (store : setting.StoreFits machine)
    (container offset : Value) :
    (Run.locate container offset).Ensures machine
      (fun located after => after = machine ∧ container = .list located.1 ∧
        located.2 < (machine.memory.lists.elements located.1).length)
      setting.Halts := by
  apply (ensures_check_lenient lenient container.asList_nameless store).bind
  rintro id _ _ ⟨rfl, isList⟩
  apply (ensures_check_lenient lenient offset.asInteger_nameless store).bind
  rintro offset machine _ ⟨rfl, _⟩
  have inRange : Nameless (Run.checkedIndex offset (machine.memory.lists.elements id).length) := by
    unfold Run.checkedIndex
    split
    · exact .ok _
    · exact .error rfl
  apply (ensures_check_lenient lenient inRange store).bind
  rintro index _ _ ⟨rfl, checked⟩
  refine Run.ensures_pure ⟨rfl, ?_, ?_⟩
  · cases container <;> cases isList
    rfl
  · unfold Run.checkedIndex at checked
    split at checked
    · rename_i inside
      cases checked
      dsimp only
      omega
    · cases checked

theorem ensures_readElement {type : Ty} (lenient : ¬setting.strict.errors)
    (store : setting.StoreFits machine) {container : Value} (offset : Value)
    (suits : setting.strict → setting.Suits type container) :
    (Run.readElement container offset).Ensures machine (setting.Gives type) setting.Halts := by
  apply (ensures_locate lenient store container offset).bind
  rintro ⟨id, index⟩ _ _ ⟨rfl, rfl, present⟩
  refine ⟨fun strict => ?_, store⟩
  rcases (suits strict).listed with ⟨element, listed, accepts⟩
  refine .of_accepts accepts (store.elements strict id element listed _ ?_)
  rw [List.getElem?_eq_getElem present]
  exact List.getElem_mem present

theorem ensures_operate {operator : Operator} {left right : Value} {leftType rightType type : Ty}
    (typed : operator.type leftType rightType = .ok type)
    (rounds : setting.strict → operator = .power → leftType = .decimal →
      setting.strict.rounded)
    (defined : setting.strict.errors → operator.DefinedOn leftType rightType)
    (leftSuits : setting.strict → setting.Suits leftType left)
    (rightSuits : setting.strict → setting.Suits rightType right)
    (store : setting.StoreFits machine) :
    (Run.operate operator left right).Ensures machine (setting.Gives type) setting.Halts := by
  have opened : (Run.operate operator left right).run machine =
      (left.operate machine.memory.lists operator right, machine) := rfl
  unfold Run.Ensures
  rw [opened]
  cases outcome : left.operate machine.memory.lists operator right with
  | ok value =>
      exact ⟨fun strict => .operate typed (rounds strict) (leftSuits strict) (rightSuits strict)
        outcome, store⟩
  | error stop =>
      refine ⟨fun error fault => ⟨?_, fun errors => ?_⟩, store⟩
      · subst fault
        exact Value.operate_nameless outcome
      · have strict := (setting.strict.exact errors).1
        have admits := Value.operate_admits machine.memory.lists typed (defined errors)
          ((leftSuits strict).admits errors) ((rightSuits strict).admits errors)
        rw [outcome] at admits
        exact admits error fault

theorem suits_parameters {parameters types : List Ty} {values : List Value}
    (length : values.length = types.length)
    (fits : ∀ pair ∈ parameters.zip types, pair.1.accepts pair.2 = true)
    (suits : ∀ pair ∈ types.zip values, setting.Suits pair.1 pair.2) :
    ∀ pair ∈ parameters.zip values, setting.Suits pair.1 pair.2 := by
  induction parameters generalizing types values with
  | nil =>
      intro pair member
      cases member
  | cons parameter parameters induction =>
      cases types with
      | nil =>
          rw [List.length_eq_zero_iff.mp length]
          intro pair member
          cases member
      | cons type types =>
          cases values with
          | nil => cases length
          | cons value values =>
              intro pair member
              rcases List.mem_cons.mp member with rfl | member
              · exact .of_accepts (fits _ List.mem_cons_self) (suits _ List.mem_cons_self)
              · exact induction (Nat.succ.inj length)
                  (fun pair member => fits pair (List.mem_cons_of_mem _ member))
                  (fun pair member => suits pair (List.mem_cons_of_mem _ member)) pair member

/-! ## Before there are functions

While globals are defined, only functions of the host can be called, and they change no
list. -/

theorem invoke_keepsLists {function : Machine.Function} {signature : Signature}
    (strict : setting.strict) (natives : ∀ context, ¬bodies context)
    (realises : setting.Realises bodies function signature) (arguments : List Value)
    (machine : Machine) : (Machine.invoke bound function arguments).KeepsLists machine := by
  cases realises with
  | declared _ _ fits => exact absurd fits.known (natives _)
  | @native behaviour callable _ gives =>
      cases bound with
      | zero => rfl
      | succ bound =>
          simp only [Machine.invoke, callable]
          exact (gives strict arguments machine.memory _ _ rfl).1

mutual

theorem evaluate_keepsLists {value : Expr} {type : Ty} {machine : Machine}
    (strict : setting.strict) (natives : ∀ context, ¬bodies context)
    (typed : value.HasType setting.annotations.Notes context type)
    (agrees : setting.Agrees bodies context machine machine.current) :
    (value.evaluate (Machine.invoke bound)).KeepsLists machine := by
  cases typed with
  | literal _ _ => rfl
  | @group _ inner _ _ typed _ =>
      show (inner.evaluate (Machine.invoke bound)).KeepsLists machine
      exact evaluate_keepsLists strict natives typed agrees
  | @binary _ _ left right _ _ _ leftTyped rightTyped _ _ =>
      refine (evaluate_keepsLists strict natives leftTyped agrees).bind fun _ _ ran => ?_
      have next := agrees.run (left.evaluate_declares (Machine.invoke_declares bound)) ran
      exact (evaluate_keepsLists strict natives rightTyped next).bind fun _ _ _ => rfl
  | access _ _ =>
      exact .of_observes ((Run.Observes.findVariable _).bind fun _ => .readCell _) _
  | element indexTyped _ _ =>
      refine (evaluate_keepsLists strict natives indexTyped agrees).bind fun _ _ _ => ?_
      exact .of_observes ((Run.Observes.findVariable _).bind fun _ =>
        (Run.Observes.readCell _).bind fun _ => .readElement _ _) _
  | @call _ name arguments _ found argumentsTyped lookup _ _ =>
      refine (evaluateAll_keepsLists strict natives argumentsTyped agrees).bind
        fun values after ran => ?_
      have next := agrees.run
        (Expr.evaluateAll_declares (Machine.invoke_declares bound) arguments) ran
      refine (Run.KeepsLists.of_observes (Run.Observes.findFunction _ _ _) _).bind
        fun function later sought => ?_
      rw [← Expr.length_of_evaluateAll ran] at lookup
      rcases next.functions name values.length found lookup with ⟨_, known, looked, realises⟩
      rw [Run.findFunction_eq_ok sought] at looked
      cases looked
      exact invoke_keepsLists strict natives realises values later

theorem evaluateAll_keepsLists {values : List Expr} {types : List Ty} {machine : Machine}
    (strict : setting.strict) (natives : ∀ context, ¬bodies context)
    (typed : Expr.HaveTypes setting.annotations.Notes context values types)
    (agrees : setting.Agrees bodies context machine machine.current) :
    (Expr.evaluateAll (Machine.invoke bound) values).KeepsLists machine := by
  cases typed with
  | nil => rfl
  | @cons head _ _ _ headTyped tailTyped =>
      refine (evaluate_keepsLists strict natives headTyped agrees).bind fun _ _ ran => ?_
      have next := agrees.run (head.evaluate_declares (Machine.invoke_declares bound)) ran
      exact (evaluateAll_keepsLists strict natives tailTyped next).bind fun _ _ _ => rfl

end

theorem initial_keepsLists {stated : Option Ty} {value : Option Expr} {type : Ty}
    (strict : setting.strict) (natives : ∀ context, ¬bodies context)
    (initializes : Initializes setting.annotations.Notes context stated value type)
    (agrees : setting.Agrees bodies context machine machine.current) :
    (Expr.evaluateInitial (Machine.invoke bound) value).KeepsLists machine := by
  cases initializes with
  | fits typed _ | infers typed => exact evaluate_keepsLists strict natives typed agrees
  | unset => rfl

theorem lists_size_of_list {node : Node} {elements : List Expr} {types : List Ty}
    {value : Value} {after : Machine}
    (strict : setting.strict) (natives : ∀ context, ¬bodies context)
    (typed : Expr.HaveTypes setting.annotations.Notes context elements types)
    (agrees : setting.Agrees bodies context machine machine.current)
    (ran : ((Expr.list node elements).evaluate (Machine.invoke bound)).run machine =
      (.ok value, after)) : after.memory.lists.size = machine.memory.lists.size + 1 := by
  have kept : (Expr.evaluateAll (Machine.invoke bound) elements).KeepsLists machine :=
    evaluateAll_keepsLists strict natives typed agrees
  rw [Run.KeepsLists] at kept
  rw [Expr.evaluate, Run.run_bind] at ran
  split at ran
  · rename_i values middle evaluated
    rw [evaluated] at kept
    cases ran
    rw [← kept]
    exact Array.size_push _
  · cases ran

/-! ## Steps with parts -/

theorem binary_leads {node : Node} {operator : Operator} {left right : Expr}
    {leftType rightType type : Ty}
    (leftTyped : left.HasType setting.annotations.Notes context leftType)
    (rightTyped : right.HasType setting.annotations.Notes context rightType)
    (operation : operator.type leftType rightType = .ok type)
    (termsFit : setting.TermsFit (Expr.binary node operator left right).subterms)
    (ready : setting.Ready bodies context machine) :
    setting.Leads (Moment.evaluateParts bound machine (.binary node operator left right))
      ((Expr.binary node operator left right).evaluate (Machine.invoke bound)) machine
      (setting.Gives type) := by
  refine .cons_bind (fun meets => meets bodies context leftType (.typed leftTyped)
    termsFit.tail.left ready) fun leftValue middle ran leftGiven => ?_
  have next := ready.run (left.evaluate_declares (Machine.invoke_declares bound)) ran leftGiven.2
  refine .single_bind (fun meets => meets bodies context rightType (.typed rightTyped)
    termsFit.tail.right next) fun rightValue after _ rightGiven => ?_
  have rounds : setting.strict → operator = .power → leftType = .decimal →
      setting.strict.rounded := by
    rintro strict isPower rfl
    exact termsFit.each strict _ List.mem_cons_self isPower leftTyped.note
  exact ensures_operate operation rounds
    (fun errors => definedOn_of_inFragment (termsFit.fragment errors _ List.mem_cons_self)
      leftTyped.note rightTyped.note) leftGiven.1 rightGiven.1 rightGiven.2

theorem access_leads {node : Node} {name : String} {found : Variable}
    (included : setting.start.Includes ⟨bound, .evaluate (.access node name), machine⟩)
    (lookup : context.lookup name = some found)
    (note : setting.annotations.Notes node.id found.type)
    (termsFit : setting.TermsFit (Expr.access node name).subterms)
    (ready : setting.Ready bodies context machine) :
    setting.Leads [] ((Expr.access node name).evaluate (Machine.invoke bound)) machine
      (setting.Gives found.type) := by
  refine .none ((ensures_findVariable ready lookup).bind ?_)
  rintro target _ _ ⟨rfl, finds⟩
  have accepts := fun strict => (finds strict).accepts
    (termsFit.each strict _ List.mem_cons_self) rfl note included .access
  refine (ensures_readCell ready.store accepts).mono ?_ fun _ _ halts => halts
  rintro value _ _ ⟨rfl, suits⟩
  exact ⟨suits, ready.store⟩

theorem element_leads {node : Node} {name : String} {index : Expr} {found : Variable}
    (included : setting.start.Includes ⟨bound, .evaluate (.element node name index), machine⟩)
    (indexTyped : index.HasType setting.annotations.Notes context .integer)
    (lookup : context.lookup name = some found)
    (note : setting.annotations.Notes node.id found.type)
    (termsFit : setting.TermsFit (Expr.element node name index).subterms)
    (ready : setting.Ready bodies context machine) :
    setting.Leads (Moment.evaluateParts bound machine (.element node name index))
      ((Expr.element node name index).evaluate (Machine.invoke bound)) machine
      (setting.Gives found.type) := by
  have lenient : ¬setting.strict.errors := fun errors =>
    termsFit.fragment errors _ List.mem_cons_self
  refine .single_bind (fun meets => meets bodies context .integer (.typed indexTyped)
    termsFit.tail ready) fun offset after ran given => ?_
  have next := ready.run (index.evaluate_declares (Machine.invoke_declares bound)) ran given.2
  apply (ensures_findVariable next lookup).bind
  rintro target _ _ ⟨rfl, finds⟩
  have accepts := fun strict => (finds strict).accepts
    (termsFit.each strict _ List.mem_cons_self) rfl note included (.element ran)
  apply (ensures_readCell next.store accepts).bind
  rintro container _ _ ⟨rfl, suits⟩
  exact ensures_readElement lenient next.store offset suits

theorem call_leads {node : Node} {name : String} {arguments : List Expr} {types : List Ty}
    {found : Signature}
    (typed : Expr.HaveTypes setting.annotations.Notes context arguments types)
    (lookup : context.lookupFunction name arguments.length = some found)
    (fits : ∀ pair ∈ found.parameters.zip types, pair.1.accepts pair.2 = true)
    (termsFit : setting.TermsFit (Expr.call node name arguments).subterms)
    (ready : setting.Ready bodies context machine) :
    setting.Leads (Moment.evaluateParts bound machine (.call node name arguments))
      ((Expr.call node name arguments).evaluate (Machine.invoke bound)) machine
      (setting.Gives found.result) := by
  refine .cons_bind (fun meets => meets bodies context types typed termsFit.tail ready)
    fun values middle ran given => ?_
  have next := ready.run (Expr.evaluateAll_declares (Machine.invoke_declares bound) arguments)
    ran given.2.2
  have length : values.length = arguments.length := given.1.trans typed.length_eq.symm
  rw [← length] at lookup
  refine .skip_bind (ensures_findFunction next.agrees lookup) ?_
  rintro function _ _ ⟨rfl, arity, realises⟩
  refine .single fun meets => meets bodies found realises arity.symm (fun strict => ?_)
    next.toSteady
  exact suits_parameters given.1 fits (given.2.1 strict)

theorem suits_elements {types : List Ty} {values : List Value} {type : Ty}
    (length : values.length = types.length)
    (accepts : ∀ actual ∈ types, type.accepts actual = true)
    (suits : ∀ pair ∈ types.zip values, setting.Suits pair.1 pair.2) :
    ∀ value ∈ values, setting.Suits type value := by
  intro value member
  rw [← List.map_snd_zip (Nat.le_of_eq length)] at member
  rcases List.mem_map.mp member with ⟨pair, paired, rfl⟩
  exact .of_accepts (accepts _ (List.of_mem_zip paired).1) (suits pair paired)

/-- A list gets the next number, and with it the type of its elements. -/
theorem list_leads {node : Node} {elements : List Expr} {types : List Ty} {type : Ty}
    (typed : Expr.HaveTypes setting.annotations.Notes context elements types)
    (fits : setting.strict → setting.ListFits bodies machine node types type)
    (termsFit : setting.TermsFit (Expr.list node elements).subterms)
    (ready : setting.Ready bodies context machine) :
    setting.Leads (Moment.evaluateParts bound machine (.list node elements))
      ((Expr.list node elements).evaluate (Machine.invoke bound)) machine
      (setting.GivesList type) := by
  refine .single_bind (fun meets => meets bodies context types typed termsFit.tail ready)
    fun values after ran given => ?_
  have next : setting.strict → setting.strict.lists[after.memory.lists.size]? = some type := by
    intro strict
    have kept : (Expr.evaluateAll (Machine.invoke bound) elements).KeepsLists machine :=
      evaluateAll_keepsLists strict (fits strict).natives typed ready.agrees
    rw [Run.KeepsLists, ran] at kept
    rw [kept]
    exact (fits strict).next
  refine ⟨⟨_, rfl, next⟩, given.2.2.allocate fun strict other listed => ?_⟩
  rw [next strict] at listed
  cases listed
  exact suits_elements given.1 (fits strict).accepts (given.2.1 strict)

theorem evaluate_leads {value : Expr} {type : Ty}
    (included : setting.start.Includes ⟨bound, .evaluate value, machine⟩)
    (typed : value.HasType setting.annotations.Notes context type)
    (termsFit : setting.TermsFit value.subterms) (ready : setting.Ready bodies context machine) :
    setting.Leads (Moment.evaluateParts bound machine value)
      (value.evaluate (Machine.invoke bound)) machine (setting.Gives type) := by
  cases typed with
  | literal typed _ =>
      exact .none (Run.ensures_pure ⟨fun _ => .ofLiteral typed, ready.store⟩)
  | group _ typed _ =>
      exact .single fun meets => meets bodies context type (.typed typed) termsFit.tail ready
  | binary leftTyped rightTyped operation _ =>
      exact binary_leads leftTyped rightTyped operation termsFit ready
  | access lookup note => exact access_leads included lookup note termsFit ready
  | element indexTyped lookup note =>
      exact element_leads included indexTyped lookup note termsFit ready
  | call typed lookup fits _ => exact call_leads typed lookup fits termsFit ready

theorem evaluate_meets {value : Expr}
    (included : setting.start.Includes ⟨bound, .evaluate value, machine⟩)
    (known : ∀ part ∈ Moment.evaluateParts bound machine value, setting.Meets part) :
    setting.Meets ⟨bound, .evaluate value, machine⟩ := by
  intro bodies context type evaluates termsFit ready
  cases evaluates with
  | typed typed =>
      have leads : setting.Leads (Moment.evaluateParts bound machine value)
          (value.evaluate (Machine.invoke bound)) machine (setting.Gives type) :=
        evaluate_leads included typed termsFit ready
      refine leads.passes known ready.store rfl (fun _ _ given => given.2) ?_ ?_
      · intro errors result after ran
        have strict := (setting.strict.exact errors).1
        exact ⟨type, typed.note, (((leads known).2.value ran).1 strict).admits errors⟩
      · cases typed <;> exact fun _ => trivial
  | @list node elements types _ typed fits =>
      have leads : setting.Leads (Moment.evaluateParts bound machine (.list node elements))
          ((Expr.list node elements).evaluate (Machine.invoke bound)) machine
          (setting.GivesList type) := list_leads typed fits termsFit ready
      have given : setting.Leads (Moment.evaluateParts bound machine (.list node elements))
          ((Expr.list node elements).evaluate (Machine.invoke bound)) machine
          (setting.Gives type) := by
        refine leads.mono ?_
        rintro _ after _ ⟨⟨id, rfl, listed⟩, store⟩
        exact ⟨fun strict => .list (listed strict) type.accepts_self, store⟩
      refine given.passes known ready.store rfl (fun _ _ given => given.2) ?_ ?_
      · intro errors
        rcases setting.strict.exact errors with ⟨strict, _, _, noLists⟩
        have next := (fits strict).next
        rw [noLists] at next
        cases next
      · intro strict result after ran
        rcases ((leads known).2.value ran).1 with ⟨id, rfl, listed⟩
        exact ⟨id, type, rfl, (fits strict).note, listed strict⟩

theorem evaluateAll_meets {values : List Expr}
    (known : ∀ part ∈ Moment.parts ⟨bound, .evaluateAll values, machine⟩, setting.Meets part) :
    setting.Meets ⟨bound, .evaluateAll values, machine⟩ := by
  intro bodies context types typed termsFit ready
  refine Leads.passes known ?_ ready.store rfl (fun _ _ given => given.2.2) (fun _ => trivial)
    fun _ => trivial
  cases typed with
  | nil =>
      exact .none (Run.ensures_pure ⟨rfl, fun _ pair member => (by cases member), ready.store⟩)
  | @cons head tail type types headTyped tailTyped =>
      refine .cons_bind (fun meets => meets bodies context type (.typed headTyped) termsFit.left
        ready) fun value middle ran given => ?_
      have next := ready.run (head.evaluate_declares (Machine.invoke_declares bound)) ran given.2
      refine .single_bind (fun meets => meets bodies context types tailTyped termsFit.right next)
        fun values after _ others => ?_
      refine Run.ensures_pure ⟨congrArg Nat.succ others.1, fun strict pair member => ?_,
        others.2.2⟩
      rcases List.mem_cons.mp member with rfl | member
      · exact given.1 strict
      · exact others.2.1 strict pair member

end Setting

end Plc
