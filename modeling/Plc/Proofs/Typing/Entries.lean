import Plc.Proofs.Typing.Sound

/-! The entries that checking makes in its tables. An action notes a list of numbers for each
table: when it succeeds they are all there and nothing else is new, and it reports a duplicate
only when a number to be given a type is repeated or has one already. -/

namespace Plc

open Typing

namespace Typing

/-! ## Entries -/

/-- The numbers under which a check makes notes, for each table. -/
structure Entries where
  types : List Nat
  bindings : List Nat
  functions : List Nat

namespace Entries

def none : Entries := ⟨[], [], []⟩

instance : Append Entries where
  append left right := ⟨left.types ++ right.types, left.bindings ++ right.bindings,
    left.functions ++ right.functions⟩

@[simp] theorem types_append (left right : Entries) :
    (left ++ right).types = left.types ++ right.types := rfl

@[simp] theorem bindings_append (left right : Entries) :
    (left ++ right).bindings = left.bindings ++ right.bindings := rfl

@[simp] theorem functions_append (left right : Entries) :
    (left ++ right).functions = left.functions ++ right.functions := rfl

/-- The entries of expressions, and of declarations beside them. -/
def ofTerms (terms : List Expr) (bindings functions : List Nat) : Entries where
  types := terms.map (·.node.id)
  bindings := (terms.filter Expr.isReceiver).map (·.node.id) ++ bindings
  functions := (terms.filter Expr.isCall).map (·.node.id) ++ functions

/-- The same entries, in whatever order they are made. -/
structure Perm (left right : Entries) : Prop where
  types : left.types.Perm right.types
  bindings : left.bindings.Perm right.bindings
  functions : left.functions.Perm right.functions

theorem Perm.of_terms {terms others : List Expr} {bindings otherVariables : List Nat}
    {functions otherFunctions : List Nat} (sameTerms : terms.Perm others)
    (sameVariables : bindings.Perm otherVariables)
    (sameFunctions : functions.Perm otherFunctions) :
    (ofTerms terms bindings functions).Perm (ofTerms others otherVariables otherFunctions) where
  types := sameTerms.map _
  bindings := ((sameTerms.filter _).map _).append sameVariables
  functions := ((sameTerms.filter _).map _).append sameFunctions

theorem ofTerms_append (left right : List Expr) (bindings moreVariables : List Nat)
    (functions moreFunctions : List Nat) :
    (ofTerms left bindings functions ++ ofTerms right moreVariables moreFunctions).Perm
      (ofTerms (left ++ right) (bindings ++ moreVariables) (functions ++ moreFunctions)) := by
  constructor
  · simp [ofTerms]
  · simp only [ofTerms, bindings_append, List.filter_append, List.map_append,
      List.perm_iff_count, List.count_append]
    omega
  · simp only [ofTerms, functions_append, List.filter_append, List.map_append,
      List.perm_iff_count, List.count_append]
    omega

end Entries

/-! ## Tables -/

namespace Annotations

/-- The expressions with these numbers can still get a type. -/
def Unused (annotations : Annotations) (numbers : List Nat) : Prop :=
  numbers.Nodup ∧ ∀ id ∈ numbers, id ∉ annotations.typeTable

/-- The tables of `after` have the entries of `before` and those given. -/
structure Gains (before : Annotations) (entries : Entries) (after : Annotations) : Prop where
  types : ∀ id, id ∈ after.typeTable ↔ id ∈ before.typeTable ∨ id ∈ entries.types
  bindings : ∀ id, id ∈ after.variableTable ↔
    id ∈ before.variableTable ∨ id ∈ entries.bindings
  functions : ∀ id, id ∈ after.functionTable ↔
    id ∈ before.functionTable ∨ id ∈ entries.functions

theorem Gains.none (annotations : Annotations) : annotations.Gains .none annotations := by
  constructor <;> simp [Entries.none]

theorem Gains.trans {before middle after : Annotations} {first second : Entries}
    (firstGains : before.Gains first middle) (secondGains : middle.Gains second after) :
    before.Gains (first ++ second) after := by
  constructor
  · intro id
    rw [secondGains.types, firstGains.types, Entries.types_append, List.mem_append, or_assoc]
  · intro id
    rw [secondGains.bindings, firstGains.bindings, Entries.bindings_append, List.mem_append,
      or_assoc]
  · intro id
    rw [secondGains.functions, firstGains.functions, Entries.functions_append, List.mem_append,
      or_assoc]

theorem unused_nil (annotations : Annotations) : annotations.Unused [] := by
  simp [Unused]

theorem Gains.unused_append_iff {before middle : Annotations} {first : Entries}
    (gains : before.Gains first middle) (numbers : List Nat) :
    before.Unused (first.types ++ numbers) ↔
      before.Unused first.types ∧ middle.Unused numbers := by
  simp only [Unused, List.nodup_append, List.mem_append, gains.types]
  constructor
  · rintro ⟨⟨firstNodup, restNodup, apart⟩, fresh⟩
    refine ⟨⟨firstNodup, fun id member => fresh id (.inl member)⟩, restNodup, ?_⟩
    rintro id member (old | new)
    · exact fresh id (.inr member) old
    · exact apart id new id member rfl
  · rintro ⟨⟨firstNodup, firstFresh⟩, restNodup, restFresh⟩
    refine ⟨⟨firstNodup, restNodup, ?_⟩, ?_⟩
    · rintro left leftMember right rightMember rfl
      exact restFresh left rightMember (.inr leftMember)
    · rintro id (member | member)
      · exact firstFresh id member
      · exact fun old => restFresh id member (.inl old)

end Annotations

/-! ## What an action notes -/

namespace Check

/-- When the action succeeds, the expressions it types were unused and all its entries
are in the tables; it only fails for a number that is used twice when they were not. -/
def Notes (entries : Entries) (action : Check α) : Prop :=
  ∀ before, match action before with
    | .ok (_, after) => before.Unused entries.types ∧ before.Gains entries after
    | .error error => ∀ id, error = .duplicateType id → ¬before.Unused entries.types

namespace Notes

variable {entries others : Entries} {action : Check α}

theorem perm (notes : Notes entries action) (same : entries.Perm others) :
    Notes others action := by
  have unused : ∀ annotations : Annotations,
      annotations.Unused others.types ↔ annotations.Unused entries.types := by
    intro annotations
    simp only [Annotations.Unused, same.types.nodup_iff, same.types.mem_iff]
  intro before
  have noted := notes before
  split at noted
  · refine ⟨(unused before).mpr noted.1, ?_, ?_, ?_⟩
    · intro id
      rw [noted.2.types, same.types.mem_iff]
    · intro id
      rw [noted.2.bindings, same.bindings.mem_iff]
    · intro id
      rw [noted.2.functions, same.functions.mem_iff]
  · intro id isDuplicate unusedOthers
    exact noted id isDuplicate ((unused before).mp unusedOthers)

theorem bind {next : α → Check β} (first : Notes entries action)
    (second : ∀ value, Notes others (next value)) :
    Notes (entries ++ others) (action >>= next) := by
  intro before
  have opened : (action >>= next) before =
      (action before).bind fun pair => next pair.1 pair.2 := rfl
  have noted := first before
  rw [opened]
  cases ran : action before with
  | error error =>
      rw [ran] at noted
      intro id isDuplicate unused
      refine noted id isDuplicate ⟨?_, ?_⟩
      · exact (List.nodup_append.mp unused.1).1
      · exact fun id member => unused.2 id (List.mem_append_left _ member)
  | ok pair =>
      rw [ran] at noted
      have later := second pair.1 pair.2
      have appended := noted.2.unused_append_iff others.types
      simp only [Except.bind]
      split at later
      · exact ⟨appended.mpr ⟨noted.1, later.1⟩, noted.2.trans later.2⟩
      · intro id isDuplicate unused
        exact later id isDuplicate (appended.mp unused).2

theorem bind_none {next : α → Check β} (first : Notes .none action)
    (second : ∀ value, Notes others (next value)) : Notes others (action >>= next) :=
  first.bind second

theorem pure (value : α) : Notes .none (pure value) := fun before =>
  ⟨before.unused_nil, .none before⟩

theorem throw {error : TypingError} (other : ∀ id, error ≠ .duplicateType id) :
    Notes entries (throw error : Check α) := fun _ id isDuplicate =>
  absurd isDuplicate (other id)

end Notes

end Check

/-! ## Computations that do not use numbers -/

/-- The result is not that a number is used twice. -/
def Numberless (result : Except TypingError α) : Prop :=
  ∀ id, result ≠ .error (.duplicateType id)

namespace Numberless

theorem ok (value : α) : Numberless (.ok value) := fun _ equal => by cases equal

theorem bind {result : Except TypingError α} {next : α → Except TypingError β}
    (first : Numberless result) (second : ∀ value, Numberless (next value)) :
    Numberless (result >>= next) := by
  cases result with
  | error error =>
      intro id equal
      cases equal
      exact first id rfl
  | ok value => exact second value

theorem mapM {convert : α → Except TypingError β} (each : ∀ value, Numberless (convert value))
    (values : List α) : Numberless (values.mapM convert) := by
  induction values with
  | nil => exact ok _
  | cons head tail induction =>
      rw [List.mapM_cons]
      exact (each head).bind fun _ => induction.bind fun _ => ok _

theorem require (target actual : Ty) : Numberless (target.require actual) := by
  intro id
  unfold Ty.require
  split <;> simp

theorem ofOptionalName (name : Option String) : Numberless (Ty.ofOptionalName name) := by
  intro id
  unfold Ty.ofOptionalName
  split
  · simp
  · split <;> simp

theorem literal (value : Literal) : Numberless value.type := by
  intro id
  unfold Literal.type
  split <;> (try split) <;> simp

theorem arithmetic (operator : Operator) (left right : Ty) :
    Numberless (Operator.type.arithmetic operator left right) := by
  intro id
  unfold Operator.type.arithmetic
  split <;> simp

theorem operator (operator : Operator) (left right : Ty) :
    Numberless (operator.type left right) := by
  have comparison : Numberless (do
      Ty.comparable.require left
      Ty.comparable.require right
      if left ≠ right then
        throw (.operandMismatch operator left right)
      return Ty.boolean : Except TypingError Ty) := by
    apply (require _ _).bind
    intro _
    apply (require _ _).bind
    intro _
    split
    · exact fun id equal => by cases equal
    · exact ok _
  cases operator with
  | and | or => exact (require _ _).bind fun _ => (require _ _).bind fun _ => ok _
  | less | greater | equal | notEqual => exact comparison
  | subtract | multiply | divide => exact arithmetic _ _ _
  | add =>
      unfold Operator.type
      dsimp only
      split
      · exact ok _
      · exact arithmetic _ _ _
  | power =>
      intro id
      unfold Operator.type
      dsimp only
      split <;> simp [pure, Except.pure, MonadExcept.throw, throwThe, MonadExceptOf.throw]

theorem requireAll (targets actuals : List Ty) : Numberless (requireAll targets actuals) := by
  induction targets generalizing actuals with
  | nil => exact ok _
  | cons target targets induction =>
      cases actuals with
      | nil => exact ok _
      | cons actual actuals => exact (require _ _).bind fun _ => induction actuals

theorem signature (procedure : Procedure) : Numberless procedure.signature :=
  (mapM (fun _ => (ofOptionalName _).bind fun _ => ok _) _).bind fun _ =>
    (ofOptionalName _).bind fun _ => ok _

theorem declareParameters (context : Context) (parameters : List (String × Ty)) :
    Numberless (declareParameters context parameters) := by
  induction parameters generalizing context with
  | nil => exact ok _
  | cons head tail induction =>
      unfold Typing.declareParameters
      split
      · exact induction _
      · exact fun id equal => by cases equal

theorem requireMain (context : Context) : Numberless (requireMain context) := by
  intro id
  unfold Typing.requireMain
  split
  · simp
  · split <;> simp

end Numberless

namespace Check.Notes

theorem lift {result : Except TypingError α} (numberless : Numberless result) :
    Notes .none (liftM result : Check α) := by
  intro before
  cases result with
  | ok value => exact ⟨before.unused_nil, .none before⟩
  | error error =>
      intro id isDuplicate
      subst isDuplicate
      exact absurd rfl (numberless id)

theorem recordType (id : Nat) (type : Ty) : Notes ⟨[id], [], []⟩ (recordType id type) := by
  intro before
  unfold Check.recordType
  by_cases used : id ∈ before.typeTable
  · rw [if_pos (Std.TreeMap.contains_iff_mem.mpr used)]
    intro other _ unused
    exact unused.2 id (List.mem_singleton_self id) used
  · rw [if_neg fun contained => used (Std.TreeMap.contains_iff_mem.mp contained)]
    have unused : before.Unused [id] := by simpa [Annotations.Unused] using used
    refine ⟨unused, ?_⟩
    constructor <;> simp [Std.TreeMap.mem_insert, or_comm, @eq_comm _ id]

theorem recordVariable (id : Nat) (binding : Variable) :
    Notes ⟨[], [id], []⟩ (recordVariable id binding) := by
  intro before
  refine ⟨before.unused_nil, ?_⟩
  constructor <;> simp [Std.TreeMap.mem_insert, or_comm, @eq_comm _ id]

theorem recordFunction (id : Nat) (binding : Signature) :
    Notes ⟨[], [], [id]⟩ (recordFunction id binding) := by
  intro before
  refine ⟨before.unused_nil, ?_⟩
  constructor <;> simp [Std.TreeMap.mem_insert, or_comm, @eq_comm _ id]

section

variable {action : Check α} {terms others : List Expr} {bindings otherVariables : List Nat}
  {functions otherFunctions : List Nat}

theorem bind_terms {next : α → Check β} (first : Notes (.ofTerms terms bindings functions) action)
    (second : ∀ value, Notes (.ofTerms others otherVariables otherFunctions) (next value)) :
    Notes (.ofTerms (terms ++ others) (bindings ++ otherVariables)
      (functions ++ otherFunctions)) (action >>= next) :=
  (first.bind second).perm (Entries.ofTerms_append _ _ _ _ _ _)

theorem bind_done {next : α → Check β} (first : Notes (.ofTerms terms bindings functions) action)
    (second : ∀ value, Notes .none (next value)) :
    Notes (.ofTerms terms bindings functions) (action >>= next) := by
  have nothing : ∀ value, Notes (.ofTerms [] [] []) (next value) := second
  simpa using first.bind_terms nothing

theorem reorder (notes : Notes (.ofTerms terms bindings functions) action)
    (sameTerms : terms.Perm others) (sameVariables : bindings.Perm otherVariables)
    (sameFunctions : functions.Perm otherFunctions) :
    Notes (.ofTerms others otherVariables otherFunctions) action :=
  notes.perm (.of_terms sameTerms sameVariables sameFunctions)

end

end Check.Notes

end Typing

end Plc
