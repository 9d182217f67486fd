import Plc.Proofs.Decimal.Power
import Plc.Proofs.Value.Scalar

/-! What operators give at run time and what their types promise. The two rules are the same but
for the order of texts, which types promise and values do not have, and for the power of zero,
which is an integer even if the base is a decimal. -/

namespace Plc

/-! ## Types of kinds -/

/-- The static type of the values of a kind. Lists have the types of their elements, and none of
their own. -/
def Value.Kind.type? : Value.Kind → Option Ty
  | .nil => some .nil
  | .boolean => some .boolean
  | .integer => some .integer
  | .decimal => some .decimal
  | .character => some .character
  | .string => some .string
  | .list => none

variable {kind : Value.Kind} {type leftType rightType : Ty}

theorem Value.Kind.eq_of_type? {other : Value.Kind} (typed : kind.type? = some type)
    (otherTyped : other.type? = some type) : kind = other := by
  cases kind <;> cases typed <;> cases other <;> cases otherTyped <;> rfl

theorem Ty.admits_of_type? (typed : kind.type? = some type) : type.admits kind = true := by
  cases kind <;> cases typed <;> rfl

theorem Ty.type?_of_admits (single : type ≠ .any ∧ type ≠ .comparable)
    (admits : type.admits kind = true) : kind.type? = some type := by
  cases type with
  | any => exact absurd rfl single.1
  | comparable => exact absurd rfl single.2
  | nil | boolean | integer | decimal | character | string =>
      rw [Ty.admits, beq_iff_eq] at admits
      rw [admits]
      rfl

theorem Operator.Numeric.single (numeric : Operator.Numeric leftType rightType type) :
    type ≠ .any ∧ type ≠ .comparable := by
  rcases numeric with ⟨_, _, rfl⟩ | ⟨_, _, rfl⟩ <;> simp

theorem Operator.type_single {operator : Operator}
    (typed : operator.type leftType rightType = .ok type) : type ≠ .any ∧ type ≠ .comparable := by
  cases operator with
  | and | or =>
      rcases Operator.type_logical rfl typed with ⟨_, _, rfl⟩
      simp
  | less | greater | equal | notEqual =>
      rcases Operator.type_comparison rfl typed with ⟨_, rfl⟩
      simp
  | add =>
      rcases Operator.type_add typed with ⟨_, rfl⟩ | numeric
      · simp
      · exact numeric.single
  | subtract | multiply | divide => exact (Operator.type_arithmetic typed).single
  | power => rcases Operator.type_power typed with ⟨_, _, rfl⟩ | ⟨_, _, rfl⟩ <;> simp

theorem Operator.type_order {operator : Operator} (ordering : operator = .less ∨ operator = .greater)
    (typed : operator.type leftType rightType = .ok type) :
    leftType ∈ [Ty.integer, .decimal, .character, .string, .comparable] := by
  have comparable : Ty.comparable.accepts leftType = true := by
    by_contra refused
    have refuses : Ty.comparable.require leftType = .error (.notAssignable .comparable leftType) :=
      if_neg refused
    rcases ordering with rfl | rfl <;> rw [Operator.type, refuses] at typed <;> cases typed
  cases leftType <;> simp_all [Ty.accepts]

/-! ## Operations that keep the promise -/

/-- What the type of an operation promises: a value of the type, unless the operation is not
defined for the numbers. -/
def Ty.Honoured (type : Ty) (outcome : Except Stop Value) : Prop :=
  (∃ value, outcome = .ok value ∧ value.kind.type? = some type) ∨
    ∃ error, outcome = .error (.fault error) ∧ error.isArithmetic = true

namespace Value

variable {operator : Operator} {left right : Value}

theorem isScalar_of_type? {value : Value} (typed : value.kind.type? = some type) :
    value.IsScalar := by
  intro list
  rw [list] at typed
  cases typed

theorem honoured_of_definedOn (lists : Lists) (leftTyped : left.kind.type? = some leftType)
    (rightTyped : right.kind.type? = some rightType)
    (typed : operator.type leftType rightType = .ok type)
    (defined : operator.DefinedOn leftType rightType) :
    type.Honoured (left.operate lists operator right) := by
  have admits := operate_admits lists typed defined (Ty.admits_of_type? leftTyped)
    (Ty.admits_of_type? rightTyped)
  cases outcome : left.operate lists operator right with
  | ok value =>
      rw [outcome] at admits
      exact .inl ⟨value, rfl, Ty.type?_of_admits (Operator.type_single typed) admits⟩
  | error stop =>
      rw [outcome] at admits
      cases stop with
      | unfinished =>
          exact absurd outcome
            ((isScalar_of_type? leftTyped).operate (isScalar_of_type? rightTyped) lists operator)
      | fault error =>
          refine .inr ⟨error, rfl, (operate_blames outcome).resolve_left ?_⟩
          rw [admits error rfl]
          exact Bool.false_ne_true

theorem honoured_of_decimal (lists : Lists) (base : Decimal) {count : ℤ} (nonzero : count ≠ 0) :
    Ty.decimal.Honoured (operate lists .power (.decimal base) (.integer count)) := by
  rw [operate]
  dsimp only
  rw [power_of_isNumber rfl, if_neg nonzero]
  split
  · exact .inr ⟨_, rfl, rfl⟩
  · split
    · exact .inr ⟨_, rfl, rfl⟩
    · exact .inl ⟨_, rfl, rfl⟩

/-! ## Operations that do not -/

def OrdersTexts (operator : Operator) (left right : Value) : Prop :=
  (operator = .less ∨ operator = .greater) ∧
    (left.kind = .character ∧ right.kind = .character ∨
      left.kind = .string ∧ right.kind = .string)

def RaisesToZero (operator : Operator) (left right : Value) : Prop :=
  operator = .power ∧ left.kind = .decimal ∧ right = .integer 0

theorem operate_of_ordersTexts (lists : Lists) (texts : OrdersTexts operator left right) :
    left.operate lists operator right =
      .error (.fault (.invalidOperation operator left.kind right.kind)) := by
  rcases texts with ⟨ordering, kinds⟩
  have undefined : order operator left right =
      .error (.invalidOperation operator left.kind right.kind) := by
    rcases kinds with ⟨kind, -⟩ | ⟨kind, -⟩
    all_goals
      cases left with
      | character _ | string _ => rfl
      | _ => cases kind
  rcases ordering with rfl | rfl
  all_goals
    rw [operate]
    dsimp only
    rw [comparison, undefined]
    rfl

theorem operate_of_raisesToZero (lists : Lists) (zero : RaisesToZero operator left right) :
    left.operate lists operator right = .ok (.integer 1) := by
  rcases zero with ⟨rfl, kind, rfl⟩
  cases left with
  | decimal _ => rfl
  | _ => cases kind

theorem definedOn_of_not_ordersTexts (leftTyped : left.kind.type? = some leftType)
    (rightTyped : right.kind.type? = some rightType)
    (typed : operator.type leftType rightType = .ok type)
    (ordering : operator = .less ∨ operator = .greater)
    (noTexts : ¬OrdersTexts operator left right) :
    (leftType = .integer ∨ leftType = .decimal) ∧
      (rightType = .integer ∨ rightType = .decimal) := by
  have level : operator.level = .comparison := by rcases ordering with rfl | rfl <;> rfl
  rcases Operator.type_comparison level typed with ⟨rfl, -⟩
  have kinds : ∀ kind : Kind, kind.type? = some leftType → left.kind = kind ∧ right.kind = kind :=
    fun kind typed => ⟨Kind.eq_of_type? leftTyped typed, Kind.eq_of_type? rightTyped typed⟩
  have number : leftType = .integer ∨ leftType = .decimal := by
    have member := Operator.type_order ordering typed
    simp only [List.mem_cons, List.not_mem_nil, or_false] at member
    rcases member with integer | decimal | rfl | rfl | rfl
    · exact .inl integer
    · exact .inr decimal
    · exact absurd ⟨ordering, .inl (kinds .character rfl)⟩ noTexts
    · exact absurd ⟨ordering, .inr (kinds .string rfl)⟩ noTexts
    · cases single : left.kind <;> rw [single] at leftTyped <;> cases leftTyped
  exact ⟨number, number⟩

/-- Apart from these two, operations keep what their types promise. -/
theorem honoured_of_neither (lists : Lists) (leftTyped : left.kind.type? = some leftType)
    (rightTyped : right.kind.type? = some rightType)
    (typed : operator.type leftType rightType = .ok type)
    (noTexts : ¬OrdersTexts operator left right) (nonzero : ¬RaisesToZero operator left right) :
    type.Honoured (left.operate lists operator right) := by
  by_cases raises : operator = .power ∧ leftType = .decimal
  · rcases raises with ⟨rfl, rfl⟩
    rcases Operator.type_power typed with ⟨impossible, _⟩ | ⟨_, rfl, rfl⟩
    · cases impossible
    rcases eq_decimal_of_admits (Ty.admits_of_type? leftTyped) with ⟨base, rfl⟩
    rcases eq_integer_of_admits (Ty.admits_of_type? rightTyped) with ⟨count, rfl⟩
    refine honoured_of_decimal lists base fun zero => nonzero ?_
    rw [zero]
    exact ⟨rfl, rfl, rfl⟩
  · refine honoured_of_definedOn lists leftTyped rightTyped typed ⟨fun ordering => ?_, ?_⟩
    · exact definedOn_of_not_ordersTexts leftTyped rightTyped typed ordering noTexts
    · exact fun power decimal => raises ⟨power, decimal⟩

/-- Where the types of two values have an operation, the operation on the values keeps what its
type promises, with two exceptions: texts have no order, and a decimal to the power of zero is
the integer one. -/
theorem operate_honours_type (lists : Lists) (operator : Operator) (left right : Value)
    (leftTyped : left.kind.type? = some leftType)
    (rightTyped : right.kind.type? = some rightType)
    (typed : operator.type leftType rightType = .ok type) :
    (type.Honoured (left.operate lists operator right) ↔
      ¬OrdersTexts operator left right ∧ ¬RaisesToZero operator left right) ∧
    (OrdersTexts operator left right →
      left.operate lists operator right =
        .error (.fault (.invalidOperation operator left.kind right.kind))) ∧
    (RaisesToZero operator left right →
      left.operate lists operator right = .ok (.integer 1)) := by
  refine ⟨⟨fun honoured => ⟨fun texts => ?_, fun zero => ?_⟩, fun neither => ?_⟩,
    operate_of_ordersTexts lists, operate_of_raisesToZero lists⟩
  · rw [operate_of_ordersTexts lists texts] at honoured
    rcases honoured with ⟨_, impossible, _⟩ | ⟨_, same, arithmetic⟩
    · cases impossible
    · cases same
      cases arithmetic
  · rw [operate_of_raisesToZero lists zero] at honoured
    rcases zero with ⟨rfl, decimal, rfl⟩
    rw [decimal] at leftTyped
    cases leftTyped
    rcases Operator.type_power typed with ⟨impossible, _⟩ | ⟨_, _, rfl⟩
    · cases impossible
    rcases honoured with ⟨_, same, wrong⟩ | ⟨_, impossible, _⟩
    · cases same
      cases wrong
    · cases impossible
  · exact honoured_of_neither lists leftTyped rightTyped typed neither.1 neither.2

/-- A quotient that is not defined, two characters in order, and a decimal to the power of zero. -/
theorem operate_honours_type_of_exceptions :
    Operator.divide.type .decimal .decimal = .ok .decimal ∧
    Ty.decimal.Honoured (operate #[] .divide (.decimal ⟨15, 1⟩) (.decimal ⟨0, 2⟩)) ∧
    Operator.less.type .character .character = .ok .boolean ∧
    operate #[] .less (.character 'a') (.character 'b') =
      .error (.fault (.invalidOperation .less .character .character)) ∧
    Operator.power.type .decimal .integer = .ok .decimal ∧
    operate #[] .power (.decimal ⟨15, 1⟩) (.integer 0) = .ok (.integer 1) := by
  have noTexts : ¬OrdersTexts .divide (.decimal ⟨15, 1⟩) (.decimal ⟨0, 2⟩) := by
    rintro ⟨impossible | impossible, _⟩ <;> cases impossible
  have nonzero : ¬RaisesToZero .divide (.decimal ⟨15, 1⟩) (.decimal ⟨0, 2⟩) := by
    rintro ⟨impossible, _⟩
    cases impossible
  have quotient := operate_honours_type #[] .divide (.decimal ⟨15, 1⟩) (.decimal ⟨0, 2⟩) rfl rfl rfl
  have order := operate_honours_type #[] .less (.character 'a') (.character 'b') rfl rfl rfl
  have power := operate_honours_type #[] .power (.decimal ⟨15, 1⟩) (.integer 0) rfl rfl rfl
  exact ⟨rfl, quotient.1.mpr ⟨noTexts, nonzero⟩, rfl, order.2.1 ⟨.inl rfl, .inl ⟨rfl, rfl⟩⟩, rfl,
    power.2.2 ⟨rfl, rfl, rfl⟩⟩

end Value

end Plc
