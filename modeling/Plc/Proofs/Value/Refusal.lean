import Plc.Proofs.Value.Table

/-! What operators refuse at run time. Values are operated on without being typed first, so an
operation checks the kinds of its operands itself. It refuses what the types refuse, unless the
left operand of a conjunction or disjunction settles the result: then the right one is not
looked at. -/

namespace Plc.Value

variable {operator : Operator} {left right value : Value} {leftType rightType : Ty}

/-! ## Operands that are accepted -/

def Settles (operator : Operator) (left : Value) : Prop :=
  operator = .and ∧ left = .boolean false ∨ operator = .or ∧ left = .boolean true

theorem operate_of_settles (lists : Lists) (right : Value) (settles : Settles operator left) :
    left.operate lists operator right = .ok left := by
  rcases settles with ⟨rfl, rfl⟩ | ⟨rfl, rfl⟩ <;> rfl

theorem kinds_of_conjunction (gives : conjunction left right = .ok value) :
    left = .boolean false ∨ left.kind = .boolean ∧ right.kind = .boolean := by
  cases left with
  | boolean truth =>
      cases truth with
      | false => exact .inl rfl
      | true =>
          cases right with
          | boolean _ => exact .inr ⟨rfl, rfl⟩
          | _ => cases gives
  | _ => cases gives

theorem kinds_of_disjunction (gives : disjunction left right = .ok value) :
    left = .boolean true ∨ left.kind = .boolean ∧ right.kind = .boolean := by
  cases left with
  | boolean truth =>
      cases truth with
      | true => exact .inl rfl
      | false =>
          cases right with
          | boolean _ => exact .inr ⟨rfl, rfl⟩
          | _ => cases gives
  | _ => cases gives

theorem kinds_of_logical {lists : Lists} (logical : operator.level = .logical)
    (gives : left.operate lists operator right = .ok value) :
    left.kind = .boolean ∧ right.kind = .boolean ∨ Settles operator left := by
  cases operator with
  | and =>
      rcases kinds_of_conjunction (ok_of_checked gives) with falsehood | booleans
      · exact .inr (.inl ⟨rfl, falsehood⟩)
      · exact .inl booleans
  | or =>
      rcases kinds_of_disjunction (ok_of_checked gives) with truth | booleans
      · exact .inr (.inr ⟨rfl, truth⟩)
      · exact .inl booleans
  | _ => cases logical

theorem exists_operate_of_booleans (lists : Lists) (logical : operator.level = .logical)
    (leftBoolean : left.kind = .boolean) (rightBoolean : right.kind = .boolean) :
    ∃ value, left.operate lists operator right = .ok value := by
  rcases eq_boolean_of_admits (beq_iff_eq.mpr leftBoolean) with ⟨first, rfl⟩
  rcases eq_boolean_of_admits (beq_iff_eq.mpr rightBoolean) with ⟨second, rfl⟩
  cases operator with
  | and | or => cases first <;> exact ⟨_, rfl⟩
  | _ => cases logical

theorem kind_of_isNumber (number : value.isNumber = true) :
    value.kind = .integer ∨ value.kind = .decimal := by
  cases value with
  | integer _ => exact .inl rfl
  | decimal _ => exact .inr rfl
  | _ => cases number

theorem kind_of_isString (text : value.isString = true) : value.kind = .string := by
  cases value with
  | string _ => rfl
  | _ => cases text

theorem numbers_of_comparison {expected : Ordering}
    (gives : comparison operator expected left right = .ok value) :
    left.isNumber = true ∧ right.kind = left.kind := by
  cases found : order operator left right with
  | error _ =>
      rw [comparison, found] at gives
      cases gives
  | ok _ =>
      unfold order at found
      split at found
      · exact ⟨rfl, rfl⟩
      · exact ⟨rfl, rfl⟩
      · cases found

theorem kind_of_exponent (gives : power left right = .ok value) : right.kind = .integer := by
  cases right with
  | integer _ => rfl
  | _ => cases gives

/-! ## Types of what is accepted -/

section

variable (leftTyped : left.kind.type? = some leftType)
  (rightTyped : right.kind.type? = some rightType)

include leftTyped rightTyped

theorem exists_type_of_numbers (logical : operator.level ≠ .logical) (power : operator ≠ .power)
    (number : left.isNumber = true) (alike : right.kind = left.kind) :
    ∃ type, operator.type leftType rightType = .ok type := by
  rw [alike, leftTyped] at rightTyped
  cases rightTyped
  rcases kind_of_isNumber number with kind | kind
  all_goals
    rw [kind] at leftTyped
    cases leftTyped
    cases operator with
    | and | or => exact absurd rfl logical
    | power => exact absurd rfl power
    | _ => exact ⟨_, rfl⟩

/-- Operands that an operator accepts have types that it accepts, unless the left one settles
the result. -/
theorem exists_type_of_operate {lists : Lists}
    (noEquality : operator ≠ .equal ∧ operator ≠ .notEqual)
    (unsettled : ¬Settles operator left) (gives : left.operate lists operator right = .ok value) :
    ∃ type, operator.type leftType rightType = .ok type := by
  have logical (level : operator.level = .logical) :
      ∃ type, operator.type leftType rightType = .ok type := by
    rcases (kinds_of_logical level gives).resolve_right unsettled with ⟨leftKind, rightKind⟩
    rw [leftKind] at leftTyped
    rw [rightKind] at rightTyped
    cases leftTyped
    cases rightTyped
    cases operator with
    | and | or => exact ⟨_, rfl⟩
    | _ => cases level
  have numbers (level : operator.level ≠ .logical) (power : operator ≠ .power)
      (both : left.isNumber = true ∧ right.kind = left.kind) :=
    exists_type_of_numbers leftTyped rightTyped level power both.1 both.2
  cases operator with
  | and | or => exact logical rfl
  | equal => exact absurd rfl noEquality.1
  | notEqual => exact absurd rfl noEquality.2
  | less | greater =>
      exact numbers nofun nofun (numbers_of_comparison (ok_of_checked gives))
  | add =>
      cases combines_of_operate gives with
      | decides level => rcases level with level | level <;> cases level
      | computes _ number alike _ => exact numbers nofun nofun ⟨number, alike⟩
      | joins either =>
          have strings : leftType = .string ∨ rightType = .string := by
            rcases either with text | text
            · rw [kind_of_isString text] at leftTyped
              exact .inl (Option.some.inj leftTyped).symm
            · rw [kind_of_isString text] at rightTyped
              exact .inr (Option.some.inj rightTyped).symm
          exact ⟨.string, if_pos strings⟩
  | subtract | multiply | divide =>
      cases combines_of_operate gives with
      | decides level => rcases level with level | level <;> cases level
      | computes _ number alike _ => exact numbers nofun nofun ⟨number, alike⟩
  | power =>
      have exponent := kind_of_exponent (ok_of_checked gives)
      rw [exponent] at rightTyped
      cases rightTyped
      rcases kind_of_isNumber (isNumber_of_power (ok_of_checked gives)) with kind | kind
      all_goals
        rw [kind] at leftTyped
        cases leftTyped
        exact ⟨_, rfl⟩

/-- An operation that the types of its operands do not have fails for the values, too, exactly
if its left operand does not settle it; otherwise it gives that operand. In particular a
conjunction or disjunction has a result if both operands are booleans, or the left one settles
it. -/
theorem operate_refuses (lists : Lists) (noEquality : operator ≠ .equal ∧ operator ≠ .notEqual) :
    (∀ reason, operator.type leftType rightType = .error reason →
      ((∃ error, left.operate lists operator right = .error (.fault error)) ↔
        ¬Settles operator left) ∧
      (Settles operator left → left.operate lists operator right = .ok left)) ∧
    (operator.level = .logical →
      ((∃ value, left.operate lists operator right = .ok value) ↔
        left.kind = .boolean ∧ right.kind = .boolean ∨ Settles operator left)) := by
  refine ⟨fun reason refused => ⟨⟨?_, fun unsettled => ?_⟩, operate_of_settles lists right⟩,
    fun logical => ⟨?_, ?_⟩⟩
  · rintro ⟨error, fails⟩ settles
    rw [operate_of_settles lists right settles] at fails
    cases fails
  · cases outcome : left.operate lists operator right with
    | ok value =>
        rcases exists_type_of_operate leftTyped rightTyped noEquality unsettled outcome with
          ⟨type, typed⟩
        rw [refused] at typed
        cases typed
    | error stop =>
        cases stop with
        | fault error => exact ⟨error, rfl⟩
        | unfinished =>
            exact absurd outcome
              ((isScalar_of_type? leftTyped).operate (isScalar_of_type? rightTyped) lists operator)
  · rintro ⟨value, gives⟩
    exact kinds_of_logical logical gives
  · rintro (⟨leftBoolean, rightBoolean⟩ | settles)
    · exact exists_operate_of_booleans lists logical leftBoolean rightBoolean
    · exact ⟨left, operate_of_settles lists right settles⟩

end

/-- A quotient of two kinds of numbers with a divisor of zero, and a conjunction that its left
operand settles. -/
theorem operate_refuses_of_quotient :
    Operator.divide.type .integer .decimal = .error (.invalidOperands .divide .integer .decimal) ∧
    (∃ error, operate #[] .divide (.integer 1) (.decimal ⟨0, 1⟩) = .error (.fault error)) ∧
    Operator.and.type .boolean .integer = .error (.notAssignable .boolean .integer) ∧
    operate #[] .and (.boolean false) (.integer 1) = .ok (.boolean false) := by
  have quotient := @operate_refuses .divide (.integer 1) (.decimal ⟨0, 1⟩) _ _ rfl rfl #[]
    (by decide)
  have conjunction := @operate_refuses .and (.boolean false) (.integer 1) _ _ rfl rfl #[]
    (by decide)
  have unsettled : ¬Settles .divide (.integer 1) := by
    rintro (⟨impossible, _⟩ | ⟨impossible, _⟩) <;> cases impossible
  exact ⟨rfl, (quotient.1 _ rfl).1.mpr unsettled, rfl, (conjunction.1 _ rfl).2 (.inl ⟨rfl, rfl⟩)⟩

/-- Falsehood and an integer have no conjunction by their types, but they have one as values. -/
theorem operate_accepts_refused :
    ¬∀ (operator : Operator) (left right : Value) (leftType rightType : Ty) (reason : TypingError),
      operator ≠ .equal → operator ≠ .notEqual →
      left.kind.type? = some leftType → right.kind.type? = some rightType →
      operator.type leftType rightType = .error reason →
      ∃ stop, left.operate #[] operator right = .error stop := by
  intro refuses
  rcases refuses .and (.boolean false) (.integer 1) .boolean .integer
    (.notAssignable .boolean .integer) nofun nofun rfl rfl rfl with ⟨stop, fails⟩
  cases fails

end Plc.Value
