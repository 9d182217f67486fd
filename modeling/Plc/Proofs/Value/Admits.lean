import Plc.Typing.Rules
import Plc.Value.Operation

/-! Values and static types: the values a type admits, and what operators make of
operands that their types admit. -/

namespace Plc

/-- Whether a value of that kind may be where the type is expected. Apart from the
two types that stand for several kinds, each admits its own kind only. -/
def Ty.admits (type : Ty) (kind : Value.Kind) : Bool :=
  match type with
  | .any => true
  | .comparable =>
      kind == .integer || kind == .decimal || kind == .character || kind == .string
  | .nil => kind == .nil
  | .boolean => kind == .boolean
  | .integer => kind == .integer
  | .decimal => kind == .decimal
  | .character => kind == .character
  | .string => kind == .string

/-- A value has no place in the operation it is used in. -/
def RuntimeError.isTyping : RuntimeError → Bool
  | .typeMismatch _ _ | .invalidOperation _ _ _ => true
  | _ => false

/-- Numbers for which an operation is not defined. -/
def RuntimeError.isArithmetic : RuntimeError → Bool
  | .divideByZero | .negativeExponent _ | .exponentTooLarge _ | .scaleOutOfRange _ => true
  | _ => false

/-- A name has no meaning, or too many. The variable `RETURN` is known while a program
is checked but not while it runs. -/
def RuntimeError.isNaming : RuntimeError → Bool
  | .undefinedFunction _ _ | .redefinition _ | .invalidReceiver | .notInvocable _
  | .detachedClosure _ => true
  | .undefinedVariable name => name != "RETURN"
  | _ => false

theorem Ty.admits_of_accepts {target actual : Ty} {kind : Value.Kind}
    (accepts : target.accepts actual = true) (admits : actual.admits kind = true) :
    target.admits kind = true := by
  cases target with
  | any => rfl
  | comparable =>
      cases actual with
      | comparable => exact admits
      | integer | decimal | character | string => simp_all [Ty.admits]
      | any | nil | boolean => cases accepts
  | nil | boolean | integer | decimal | character | string =>
      rw [Ty.accepts, beq_iff_eq] at accepts
      rw [accepts]
      exact admits
      all_goals simp

theorem Ty.eq_of_accepts {target actual : Ty} (notAny : target ≠ .any)
    (notComparable : target ≠ .comparable) (accepts : target.accepts actual = true) :
    actual = target := by
  cases target with
  | any => exact absurd rfl notAny
  | comparable => exact absurd rfl notComparable
  | nil | boolean | integer | decimal | character | string =>
      exact (beq_iff_eq.mp accepts).symm

theorem Ty.accepts_trans {target middle actual : Ty} (first : target.accepts middle = true)
    (second : middle.accepts actual = true) : target.accepts actual = true := by
  cases target with
  | any => rfl
  | comparable =>
      cases middle with
      | comparable => exact second
      | integer | decimal | character | string =>
          rw [← eq_of_beq second]
          rfl
      | any | nil | boolean => cases first
  | nil | boolean | integer | decimal | character | string =>
      rw [Ty.accepts, beq_iff_eq] at first
      rw [first]
      exact second
      all_goals simp

namespace Value

theorem admits_ofLiteral {literal : Literal} {type : Ty} (typed : literal.type = .ok type) :
    type.admits (ofLiteral literal).kind = true := by
  cases literal with
  | nil | boolean | character | string =>
      cases typed
      rfl
  | integer value | decimal value =>
      simp only [Literal.type] at typed
      split at typed
      · cases typed
        rfl
      · cases typed

/-! ## Values of one kind -/

section

variable {value : Value}

theorem eq_boolean_of_admits (admits : Ty.boolean.admits value.kind = true) :
    ∃ truth, value = .boolean truth := by
  cases value with
  | boolean truth => exact ⟨truth, rfl⟩
  | _ => cases admits

theorem eq_integer_of_admits (admits : Ty.integer.admits value.kind = true) :
    ∃ number, value = .integer number := by
  cases value with
  | integer number => exact ⟨number, rfl⟩
  | _ => cases admits

theorem eq_decimal_of_admits (admits : Ty.decimal.admits value.kind = true) :
    ∃ number, value = .decimal number := by
  cases value with
  | decimal number => exact ⟨number, rfl⟩
  | _ => cases admits

theorem eq_string_of_admits (admits : Ty.string.admits value.kind = true) :
    ∃ text, value = .string text := by
  cases value with
  | string text => exact ⟨text, rfl⟩
  | _ => cases admits

end

end Value

/-! ## Types of operations -/

namespace Operator

variable {operator : Operator} {left right result : Ty}

theorem type_logical (logical : operator.level = .logical)
    (typed : operator.type left right = .ok result) :
    left = .boolean ∧ right = .boolean ∧ result = .boolean := by
  have opened : (do
      Ty.boolean.require left
      Ty.boolean.require right
      return Ty.boolean : Except TypingError Ty) = .ok result := by
    cases operator <;> first | exact typed | cases logical
  cases left <;> cases right <;> cases opened
  exact ⟨rfl, rfl, rfl⟩

theorem type_comparison (comparison : operator.level = .comparison)
    (typed : operator.type left right = .ok result) : left = right ∧ result = .boolean := by
  have opened : (do
      Ty.comparable.require left
      Ty.comparable.require right
      if left ≠ right then
        throw (.operandMismatch operator left right)
      return Ty.boolean : Except TypingError Ty) = .ok result := by
    cases operator <;> first | exact typed | cases comparison
  cases left <;> cases right <;> cases opened <;> exact ⟨rfl, rfl⟩

def Numeric (left right result : Ty) : Prop :=
  (left = .integer ∧ right = .integer ∧ result = .integer) ∨
    (left = .decimal ∧ right = .decimal ∧ result = .decimal)

theorem Numeric.left_eq (numeric : Numeric left right result) : left = result := by
  rcases numeric with ⟨rfl, _, rfl⟩ | ⟨rfl, _, rfl⟩ <;> rfl

theorem Numeric.left_number (numeric : Numeric left right result) :
    left = .integer ∨ left = .decimal :=
  numeric.imp (·.1) (·.1)

theorem Numeric.right_number (numeric : Numeric left right result) :
    right = .integer ∨ right = .decimal :=
  numeric.imp (·.2.1) (·.2.1)

theorem type_arithmetic (typed : Operator.type.arithmetic operator left right = .ok result) :
    Numeric left right result := by
  unfold Operator.type.arithmetic at typed
  split at typed
  · cases typed
    exact .inl ⟨rfl, rfl, rfl⟩
  · cases typed
    exact .inr ⟨rfl, rfl, rfl⟩
  · cases typed

theorem type_add (typed : Operator.add.type left right = .ok result) :
    ((left = .string ∨ right = .string) ∧ result = .string) ∨ Numeric left right result := by
  by_cases joins : left = .string ∨ right = .string
  · rw [Operator.type, if_pos joins] at typed
    cases typed
    exact .inl ⟨joins, rfl⟩
  · rw [Operator.type, if_neg joins] at typed
    exact .inr (type_arithmetic typed)

theorem type_power (typed : Operator.power.type left right = .ok result) :
    (left = .integer ∧ right = .integer ∧ result = .integer) ∨
      (left = .decimal ∧ right = .integer ∧ result = .decimal) := by
  cases left <;> cases right <;> cases typed <;> simp

end Operator

/-! ## Operations on values -/

/-- A result that the type admits, or an error that is not one of typing. -/
def Ty.AdmitsResult (type : Ty) (result : Except RuntimeError Value) : Prop :=
  match result with
  | .ok value => type.admits value.kind = true
  | .error error => error.isTyping = false

/-- The same of a result that may be missing for want of time. -/
def Ty.AdmitsOutcome (type : Ty) (outcome : Except Stop Value) : Prop :=
  match outcome with
  | .ok value => type.admits value.kind = true
  | .error stop => ∀ error, stop = .fault error → error.isTyping = false

/-- What an operator asks of the types of its operands beyond being well typed: only
numbers can be put in order, and only integers have powers of their own kind. -/
def Operator.DefinedOn (operator : Operator) (left right : Ty) : Prop :=
  (operator = .less ∨ operator = .greater →
    (left = .integer ∨ left = .decimal) ∧ (right = .integer ∨ right = .decimal)) ∧
  (operator = .power → left ≠ .decimal)

namespace Value

variable {left right : Value} {leftType rightType type : Ty}

section

variable (leftAdmits : leftType.admits left.kind = true)
  (rightAdmits : rightType.admits right.kind = true)

include leftAdmits rightAdmits

theorem numbers_of_admits (numeric : Operator.Numeric leftType rightType type) :
    (type = .integer ∧ ∃ leftNumber rightNumber,
      left = .integer leftNumber ∧ right = .integer rightNumber) ∨
    (type = .decimal ∧ ∃ leftNumber rightNumber,
      left = .decimal leftNumber ∧ right = .decimal rightNumber) := by
  rcases numeric with ⟨rfl, rfl, rfl⟩ | ⟨rfl, rfl, rfl⟩
  · rcases eq_integer_of_admits leftAdmits with ⟨leftNumber, rfl⟩
    rcases eq_integer_of_admits rightAdmits with ⟨rightNumber, rfl⟩
    exact .inl ⟨rfl, leftNumber, rightNumber, rfl, rfl⟩
  · rcases eq_decimal_of_admits leftAdmits with ⟨leftNumber, rfl⟩
    rcases eq_decimal_of_admits rightAdmits with ⟨rightNumber, rfl⟩
    exact .inr ⟨rfl, leftNumber, rightNumber, rfl, rfl⟩

theorem arithmetic_admits (operator : Operator) (onIntegers : Int → Int → Int)
    (onDecimals : Decimal → Decimal → Decimal)
    (numeric : Operator.Numeric leftType rightType type) :
    type.AdmitsResult (arithmetic operator onIntegers onDecimals left right) := by
  rcases numbers_of_admits leftAdmits rightAdmits numeric with
    ⟨rfl, _, _, rfl, rfl⟩ | ⟨rfl, _, _, rfl, rfl⟩ <;> rfl

theorem quotient_admits (numeric : Operator.Numeric leftType rightType type) :
    type.AdmitsResult (quotient left right) := by
  rcases numbers_of_admits leftAdmits rightAdmits numeric with
    ⟨rfl, _, _, rfl, rfl⟩ | ⟨rfl, _, _, rfl, rfl⟩
  all_goals
    simp only [quotient]
    split <;> rfl

theorem comparison_admits (operator : Operator) (expected : Ordering)
    (numeric : Operator.Numeric leftType rightType type) :
    Ty.boolean.AdmitsResult (comparison operator expected left right) := by
  rcases numbers_of_admits leftAdmits rightAdmits numeric with
    ⟨rfl, _, _, rfl, rfl⟩ | ⟨rfl, _, _, rfl, rfl⟩ <;> rfl

end

theorem conjunction_admits (leftAdmits : Ty.boolean.admits left.kind = true)
    (rightAdmits : Ty.boolean.admits right.kind = true) :
    Ty.boolean.AdmitsResult (conjunction left right) := by
  rcases eq_boolean_of_admits leftAdmits with ⟨truth, rfl⟩
  rcases eq_boolean_of_admits rightAdmits with ⟨_, rfl⟩
  cases truth <;> rfl

theorem disjunction_admits (leftAdmits : Ty.boolean.admits left.kind = true)
    (rightAdmits : Ty.boolean.admits right.kind = true) :
    Ty.boolean.AdmitsResult (disjunction left right) := by
  rcases eq_boolean_of_admits leftAdmits with ⟨truth, rfl⟩
  rcases eq_boolean_of_admits rightAdmits with ⟨_, rfl⟩
  cases truth <;> rfl

/-- The power of a number to the power of more than zero. -/
def raised (base : Value) (count : Nat) : Value :=
  match base with
  | .integer number => .integer (powerBySquaring (· * ·) 1 number count)
  | .decimal number => .decimal (number.power count)
  | other => other

theorem kind_raised (base : Value) (count : Nat) : (base.raised count).kind = base.kind := by
  cases base <;> rfl

theorem power_of_isNumber {base : Value} (number : base.isNumber = true) (count : Int) :
    power base (.integer count) =
      if count < 0 then .error (.negativeExponent count)
      else if count = 0 then .ok (.integer 1)
      else if exponentLimit ≤ count then .error (.exponentTooLarge count)
      else .ok (base.raised count.toNat) := by
  have opened : power base (.integer count) = (do
      if count < 0 then
        throw (.negativeExponent count)
      if count = 0 then
        return .integer 1
      if exponentLimit ≤ count then
        throw (.exponentTooLarge count)
      return base.raised count.toNat : Except RuntimeError Value) := by
    cases base with
    | integer _ | decimal _ => rfl
    | _ => cases number
  rw [opened]
  split
  · rfl
  · split
    · rfl
    · split <;> rfl

theorem power_of_isNumber_eq_false {base : Value} (noNumber : base.isNumber = false) (count : Int) :
    power base (.integer count) =
      if count < 0 then .error (.negativeExponent count)
      else .error (.invalidOperation .power base.kind .integer) := by
  have opened : power base (.integer count) = (do
      if count < 0 then
        throw (.negativeExponent count)
      throw (.invalidOperation .power base.kind .integer) : Except RuntimeError Value) := by
    rw [power, noNumber]
    rfl
  rw [opened]
  split <;> rfl

theorem power_admits (leftAdmits : Ty.integer.admits left.kind = true)
    (rightAdmits : Ty.integer.admits right.kind = true) :
    Ty.integer.AdmitsResult (power left right) := by
  rcases eq_integer_of_admits leftAdmits with ⟨base, rfl⟩
  rcases eq_integer_of_admits rightAdmits with ⟨count, rfl⟩
  rw [power_of_isNumber rfl]
  split
  · rfl
  · split
    · rfl
    · split <;> rfl

theorem admitsOutcome_checked {result : Except RuntimeError Value}
    (admitted : type.AdmitsResult result) : type.AdmitsOutcome (result.mapError .fault) := by
  cases result with
  | ok value => exact admitted
  | error reason =>
      rintro error ⟨rfl⟩
      exact admitted

theorem admitsOutcome_finished {result : Option Value}
    (admitted : ∀ value, result = some value → type.admits value.kind = true) :
    type.AdmitsOutcome (finished result) := by
  cases result with
  | some value => exact admitted value rfl
  | none => rintro error ⟨⟩

theorem operate_add_admits (lists : Lists)
    (typed : Operator.add.type leftType rightType = .ok type)
    (leftAdmits : leftType.admits left.kind = true)
    (rightAdmits : rightType.admits right.kind = true) :
    type.AdmitsOutcome (left.operate lists .add right) := by
  rw [operate]
  dsimp only
  rcases Operator.type_add typed with ⟨joins, rfl⟩ | numeric
  · have texts : (left.isString || right.isString) = true := by
      rcases joins with rfl | rfl
      · rcases eq_string_of_admits leftAdmits with ⟨text, rfl⟩
        rfl
      · rcases eq_string_of_admits rightAdmits with ⟨text, rfl⟩
        exact Bool.or_true _
    rw [if_pos texts]
    apply admitsOutcome_finished
    intro value given
    unfold concatenate? at given
    rcases Option.bind_eq_some_iff.mp given with ⟨_, _, given⟩
    rcases Option.bind_eq_some_iff.mp given with ⟨_, _, given⟩
    cases given
    rfl
  · have numbers : ¬(left.isString || right.isString) = true := by
      rcases numbers_of_admits leftAdmits rightAdmits numeric with
        ⟨_, _, _, rfl, rfl⟩ | ⟨_, _, _, rfl, rfl⟩ <;> exact Bool.false_ne_true
    rw [if_neg numbers]
    exact admitsOutcome_checked (arithmetic_admits leftAdmits rightAdmits .add _ _ numeric)

theorem operate_order_admits {operator : Operator} (expected : Ordering)
    (comparing : operator = .less ∨ operator = .greater)
    (typed : operator.type leftType rightType = .ok type)
    (defined : operator.DefinedOn leftType rightType)
    (leftAdmits : leftType.admits left.kind = true)
    (rightAdmits : rightType.admits right.kind = true) :
    type.AdmitsOutcome ((comparison operator expected left right).mapError .fault) := by
  have comparison : operator.level = .comparison := by rcases comparing with rfl | rfl <;> rfl
  rcases Operator.type_comparison comparison typed with ⟨rfl, rfl⟩
  have numeric : Operator.Numeric leftType leftType leftType := by
    rcases (defined.1 comparing).1 with rfl | rfl
    · exact .inl ⟨rfl, rfl, rfl⟩
    · exact .inr ⟨rfl, rfl, rfl⟩
  exact admitsOutcome_checked (comparison_admits leftAdmits rightAdmits operator expected numeric)

/-- An operation on operands that their types admit gives a value that the type of
the operation admits, and does not fail for the sake of a type. -/
theorem operate_admits (lists : Lists) {operator : Operator}
    (typed : operator.type leftType rightType = .ok type)
    (defined : operator.DefinedOn leftType rightType)
    (leftAdmits : leftType.admits left.kind = true)
    (rightAdmits : rightType.admits right.kind = true) :
    type.AdmitsOutcome (left.operate lists operator right) := by
  cases operator with
  | and =>
      rcases Operator.type_logical rfl typed with ⟨rfl, rfl, rfl⟩
      exact admitsOutcome_checked (conjunction_admits leftAdmits rightAdmits)
  | or =>
      rcases Operator.type_logical rfl typed with ⟨rfl, rfl, rfl⟩
      exact admitsOutcome_checked (disjunction_admits leftAdmits rightAdmits)
  | less => exact operate_order_admits .lt (.inl rfl) typed defined leftAdmits rightAdmits
  | greater => exact operate_order_admits .gt (.inr rfl) typed defined leftAdmits rightAdmits
  | equal | notEqual =>
      rcases Operator.type_comparison rfl typed with ⟨_, rfl⟩
      apply admitsOutcome_finished
      intro value given
      rcases Option.map_eq_some_iff.mp given with ⟨truth, _, rfl⟩
      rfl
  | add => exact operate_add_admits lists typed leftAdmits rightAdmits
  | subtract =>
      exact admitsOutcome_checked (arithmetic_admits leftAdmits rightAdmits .subtract _ _
        (Operator.type_arithmetic typed))
  | multiply =>
      exact admitsOutcome_checked (arithmetic_admits leftAdmits rightAdmits .multiply _ _
        (Operator.type_arithmetic typed))
  | divide =>
      exact admitsOutcome_checked
        (quotient_admits leftAdmits rightAdmits (Operator.type_arithmetic typed))
  | power =>
      rcases Operator.type_power typed with ⟨rfl, rfl, rfl⟩ | ⟨rfl, _, _⟩
      · exact admitsOutcome_checked (power_admits leftAdmits rightAdmits)
      · exact absurd rfl (defined.2 rfl)

end Value

/-! ## What operations give -/

namespace Value

/-- What an operator makes of its operands, as far as kinds are concerned and whatever
the types of the operands are. -/
inductive Combines (left right : Value) : Operator → Value → Prop where
  | decides {operator : Operator} {truth : Bool}
      (level : operator.level = .logical ∨ operator.level = .comparison) :
      Combines left right operator (.boolean truth)
  | joins {text : String} (either : left.isString = true ∨ right.isString = true) :
      Combines left right .add (.string text)
  | computes {operator : Operator} {value : Value}
      (arithmetic : operator ∈ [Operator.add, .subtract, .multiply, .divide])
      (number : left.isNumber = true) (alike : right.kind = left.kind)
      (kind : value.kind = left.kind) : Combines left right operator value
  /-- The power of zero is an integer whatever the base is. -/
  | raises {value : Value} (number : left.isNumber = true)
      (kind : value.kind = left.kind ∨ value.kind = .integer) :
      Combines left right .power value

variable {left right value : Value}

theorem isNumber_of_kind {other : Value} (alike : value.kind = other.kind) :
    value.isNumber = other.isNumber := by
  cases value <;> cases other <;> first | rfl | cases alike

theorem ok_of_checked {result : Except RuntimeError Value}
    (gives : result.mapError Stop.fault = .ok value) : result = .ok value := by
  cases result with
  | ok given =>
      cases gives
      rfl
  | error reason => cases gives

theorem combines_of_conjunction (gives : conjunction left right = .ok value) :
    Combines left right .and value := by
  cases left with
  | boolean truth =>
      cases truth with
      | false =>
          cases gives
          exact .decides (.inl rfl)
      | true =>
          cases right with
          | boolean _ =>
              cases gives
              exact .decides (.inl rfl)
          | _ => cases gives
  | _ => cases gives

theorem combines_of_disjunction (gives : disjunction left right = .ok value) :
    Combines left right .or value := by
  cases left with
  | boolean truth =>
      cases truth with
      | true =>
          cases gives
          exact .decides (.inl rfl)
      | false =>
          cases right with
          | boolean _ =>
              cases gives
              exact .decides (.inl rfl)
          | _ => cases gives
  | _ => cases gives

theorem combines_of_comparison {operator : Operator} {expected : Ordering}
    (level : operator.level = .comparison)
    (gives : comparison operator expected left right = .ok value) :
    Combines left right operator value := by
  unfold comparison at gives
  cases found : order operator left right with
  | ok _ =>
      rw [found] at gives
      cases gives
      exact .decides (.inr level)
  | error _ =>
      rw [found] at gives
      cases gives

theorem combines_of_equality {operator : Operator} {found : Option Bool}
    (reads : Bool → Bool) (level : operator.level = .comparison)
    (gives : finished (found.map fun equal => .boolean (reads equal)) = .ok value) :
    Combines left right operator value := by
  cases found with
  | some equal =>
      cases gives
      exact .decides (.inr level)
  | none => cases gives

theorem combines_of_arithmetic {operator : Operator} {onIntegers : Int → Int → Int}
    {onDecimals : Decimal → Decimal → Decimal}
    (member : operator ∈ [Operator.add, .subtract, .multiply, .divide])
    (gives : arithmetic operator onIntegers onDecimals left right = .ok value) :
    Combines left right operator value := by
  unfold arithmetic at gives
  split at gives <;> cases gives <;> exact .computes member rfl rfl rfl

theorem combines_of_quotient (gives : quotient left right = .ok value) :
    Combines left right .divide value := by
  have member : Operator.divide ∈ [Operator.add, .subtract, .multiply, .divide] := by decide
  unfold quotient at gives
  split at gives
  · split at gives <;> cases gives
    exact .computes member rfl rfl rfl
  · split at gives <;> cases gives
    exact .computes member rfl rfl rfl
  · cases gives

theorem isNumber_of_power (gives : power left right = .ok value) : left.isNumber = true := by
  cases right with
  | integer count =>
      cases left with
      | integer _ | decimal _ => rfl
      | _ =>
          rw [power_of_isNumber_eq_false rfl] at gives
          split at gives <;> cases gives
  | _ => cases gives

theorem combines_of_power (gives : power left right = .ok value) :
    Combines left right .power value := by
  have number := isNumber_of_power gives
  cases right with
  | integer count =>
      rw [power_of_isNumber number] at gives
      split at gives
      · cases gives
      · split at gives
        · cases gives
          exact .raises number (.inr rfl)
        · split at gives <;> cases gives
          exact .raises number (.inl (kind_raised left count.toNat))
  | _ => cases gives

theorem combines_of_concatenate {lists : Lists}
    (either : (left.isString || right.isString) = true)
    (gives : finished (concatenate? lists left right) = .ok value) :
    Combines left right .add value := by
  cases joined : concatenate? lists left right with
  | none =>
      rw [joined] at gives
      cases gives
  | some text =>
      rw [joined] at gives
      cases gives
      unfold concatenate? at joined
      rcases Option.bind_eq_some_iff.mp joined with ⟨_, _, joined⟩
      rcases Option.bind_eq_some_iff.mp joined with ⟨_, _, joined⟩
      cases joined
      exact .joins (Bool.or_eq_true_iff.mp either)

theorem combines_of_operate {lists : Lists} {operator : Operator}
    (gives : left.operate lists operator right = .ok value) :
    Combines left right operator value := by
  cases operator with
  | and => exact combines_of_conjunction (ok_of_checked gives)
  | or => exact combines_of_disjunction (ok_of_checked gives)
  | less => exact combines_of_comparison rfl (ok_of_checked gives)
  | greater => exact combines_of_comparison rfl (ok_of_checked gives)
  | equal => exact combines_of_equality id rfl gives
  | notEqual => exact combines_of_equality (!·) rfl gives
  | add =>
      rw [operate] at gives
      dsimp only at gives
      split at gives
      · rename_i either
        exact combines_of_concatenate either gives
      · exact combines_of_arithmetic (by decide) (ok_of_checked gives)
  | subtract => exact combines_of_arithmetic (by decide) (ok_of_checked gives)
  | multiply => exact combines_of_arithmetic (by decide) (ok_of_checked gives)
  | divide => exact combines_of_quotient (ok_of_checked gives)
  | power => exact combines_of_power (ok_of_checked gives)

end Value

/-! ## Errors of operations -/

def Nameless (result : Except RuntimeError α) : Prop :=
  ∀ error, result = .error error → error.isNaming = false

theorem Nameless.ok (value : α) : Nameless (.ok value) := by
  intro error failed
  cases failed

theorem Nameless.error {error : RuntimeError} (other : error.isNaming = false) :
    Nameless (.error error : Except RuntimeError α) := by
  rintro _ ⟨rfl⟩
  exact other

/-- If the result is missing, the operands are to blame: their kinds or their numbers. -/
def BlamesOperands (result : Except RuntimeError α) : Prop :=
  ∀ error, result = .error error → error.isTyping = true ∨ error.isArithmetic = true

theorem BlamesOperands.ok (value : α) : BlamesOperands (.ok value) := by
  intro error failed
  cases failed

theorem BlamesOperands.error {error : RuntimeError}
    (blamed : error.isTyping = true ∨ error.isArithmetic = true) :
    BlamesOperands (.error error : Except RuntimeError α) := by
  rintro _ ⟨rfl⟩
  exact blamed

theorem BlamesOperands.bind {result : Except RuntimeError α} {next : α → Except RuntimeError β}
    (first : BlamesOperands result) (second : ∀ value, BlamesOperands (next value)) :
    BlamesOperands (result >>= next) := by
  cases result with
  | ok value => exact second value
  | error reason =>
      rintro _ ⟨rfl⟩
      exact first _ rfl

theorem BlamesOperands.ite {condition : Prop} [Decidable condition]
    {whenTrue whenFalse : Except RuntimeError α} (first : BlamesOperands whenTrue)
    (second : BlamesOperands whenFalse) :
    BlamesOperands (if condition then whenTrue else whenFalse) := by
  split <;> assumption

theorem BlamesOperands.unless {condition : Prop} [Decidable condition] {error : RuntimeError}
    {next : Unit → Except RuntimeError α}
    (blamed : error.isTyping = true ∨ error.isArithmetic = true)
    (rest : BlamesOperands (next ())) :
    BlamesOperands
      (if condition then (throw error : Except RuntimeError Unit) >>= next else next ()) :=
  .ite (.error blamed) rest

theorem RuntimeError.isNaming_eq_false {error : RuntimeError}
    (blamed : error.isTyping = true ∨ error.isArithmetic = true) : error.isNaming = false := by
  cases error <;> first | rfl | (rcases blamed with impossible | impossible <;> cases impossible)

theorem BlamesOperands.nameless {result : Except RuntimeError α} (blames : BlamesOperands result) :
    Nameless result :=
  fun error failed => RuntimeError.isNaming_eq_false (blames error failed)

namespace Value

theorem asBoolean_blames (value : Value) : BlamesOperands value.asBoolean := by
  cases value <;> first | exact .ok _ | exact .error (.inl rfl)

theorem asInteger_blames (value : Value) : BlamesOperands value.asInteger := by
  cases value <;> first | exact .ok _ | exact .error (.inl rfl)

theorem asBoolean_nameless (value : Value) : Nameless value.asBoolean :=
  value.asBoolean_blames.nameless

theorem asInteger_nameless (value : Value) : Nameless value.asInteger :=
  value.asInteger_blames.nameless

theorem asList_nameless (value : Value) : Nameless value.asList := by
  cases value <;> first | exact .ok _ | exact .error rfl

theorem arithmetic_blames (operator : Operator) (onIntegers : Int → Int → Int)
    (onDecimals : Decimal → Decimal → Decimal) (left right : Value) :
    BlamesOperands (arithmetic operator onIntegers onDecimals left right) := by
  unfold arithmetic
  split
  · exact .ok _
  · exact .ok _
  · exact .error (.inl rfl)

theorem comparison_blames (operator : Operator) (expected : Ordering) (left right : Value) :
    BlamesOperands (comparison operator expected left right) := by
  refine .bind ?_ fun _ => .ok _
  unfold order
  split
  · exact .ok _
  · exact .ok _
  · exact .error (.inl rfl)

theorem conjunction_blames (left right : Value) : BlamesOperands (conjunction left right) := by
  apply left.asBoolean_blames.bind
  intro holds
  cases holds with
  | true => exact right.asBoolean_blames.bind fun _ => .ok _
  | false => exact .ok _

theorem disjunction_blames (left right : Value) : BlamesOperands (disjunction left right) := by
  apply left.asBoolean_blames.bind
  intro holds
  cases holds with
  | true => exact .ok _
  | false => exact right.asBoolean_blames.bind fun _ => .ok _

theorem quotient_blames (left right : Value) : BlamesOperands (quotient left right) := by
  unfold quotient
  split
  · split
    · exact .error (.inr rfl)
    · exact .ok _
  · split
    · exact .error (.inr rfl)
    · exact .ok _
  · exact .error (.inl rfl)

theorem power_blames (base exponent : Value) : BlamesOperands (power base exponent) := by
  unfold power
  apply exponent.asInteger_blames.bind
  intro count
  refine .unless (.inr rfl) (.unless (.inl rfl) (.ite (.ok _) (.unless (.inr rfl) ?_)))
  cases base with
  | integer base | decimal base => exact .ok _
  | _ => exact .error (.inl rfl)

theorem finished_ne_fault {result : Option α} {error : RuntimeError} :
    finished result ≠ .error (.fault error) := by
  cases result <;> exact nofun

/-- An operation that fails, and does not only run out of time, has the wrong operands. -/
theorem operate_blames {lists : Lists} {operator : Operator} {left right : Value}
    {error : RuntimeError} (failed : left.operate lists operator right = .error (.fault error)) :
    error.isTyping = true ∨ error.isArithmetic = true := by
  have checked : ∀ {result : Except RuntimeError Value}, BlamesOperands result →
      result.mapError Stop.fault = .error (.fault error) →
      error.isTyping = true ∨ error.isArithmetic = true := by
    intro result blames failed
    cases result with
    | ok value => cases failed
    | error reason =>
        cases failed
        exact blames _ rfl
  cases operator with
  | and => exact checked (conjunction_blames left right) failed
  | or => exact checked (disjunction_blames left right) failed
  | less => exact checked (comparison_blames .less .lt left right) failed
  | greater => exact checked (comparison_blames .greater .gt left right) failed
  | equal | notEqual => exact absurd failed finished_ne_fault
  | add =>
      rw [operate] at failed
      dsimp only at failed
      split at failed
      · exact absurd failed finished_ne_fault
      · exact checked (arithmetic_blames .add _ _ left right) failed
  | subtract => exact checked (arithmetic_blames .subtract _ _ left right) failed
  | multiply => exact checked (arithmetic_blames .multiply _ _ left right) failed
  | divide => exact checked (quotient_blames left right) failed
  | power => exact checked (power_blames left right) failed

theorem operate_nameless {lists : Lists} {operator : Operator} {left right : Value}
    {error : RuntimeError} (failed : left.operate lists operator right = .error (.fault error)) :
    error.isNaming = false :=
  RuntimeError.isNaming_eq_false (operate_blames failed)

end Value

end Plc
