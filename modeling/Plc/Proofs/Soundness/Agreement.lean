import Plc.Proofs.Machine.Creation
import Plc.Proofs.Soundness.Fragment
import Plc.Proofs.Typing.Context

/-! What a machine has to have for a program that was checked in a context: every
name of the context stands for something in the machine, and every cell and every
element of a list holds a value that suits its type. -/

namespace Plc

open Typing

/-! ## Elements of lists -/

namespace Memory

theorem elements_setElement (memory : Memory) (id index : Nat) (value : Value) :
    (memory.setElement id index value).lists.elements id =
      (memory.lists.elements id).set index value := by
  simp only [Memory.setElement, Lists.elements, Array.getElem?_modify, if_pos]
  cases memory.lists[id]? <;> rfl

theorem elements_setElement_ne (memory : Memory) {id other : Nat} (different : id ≠ other)
    (index : Nat) (value : Value) :
    (memory.setElement id index value).lists.elements other = memory.lists.elements other := by
  simp only [Memory.setElement, Lists.elements, Array.getElem?_modify, if_neg different]

theorem elements_allocate (memory : Memory) (elements : List Value) (id : Nat) :
    (memory.allocate elements).2.lists.elements id =
      if id = memory.lists.size then elements else memory.lists.elements id := by
  simp only [Memory.allocate, Lists.elements, Array.getElem?_push]
  by_cases new : id = memory.lists.size
  · simp only [if_pos new]
  · simp only [if_neg new]

end Memory

/-! ## Settings -/

/-- How closely a run is followed: for names alone, for values as well, or for values
and for errors that are about types. -/
structure Strictness where
  values : Prop
  errors : Prop
  /-- What is declared with the type may be without a value. -/
  missing : Ty → Prop
  /-- A decimal may turn out to be an integer. -/
  rounded : Prop
  /-- The types of the elements of the lists, in the order in which lists are made. -/
  lists : List Ty
  exact : errors → values ∧ (∀ type, ¬missing type) ∧ ¬rounded ∧ lists = []

namespace Strictness

/-- Without lists, missing values and rounding, all is followed or names alone. -/
instance : Coe Prop Strictness where
  coe strict :=
    ⟨strict, strict, fun _ => False, False, [], fun holds => ⟨holds, fun _ => id, id, rfl⟩⟩

instance : Coe Strictness Prop := ⟨values⟩

instance : CoeSort Strictness Prop := ⟨values⟩

end Strictness

/-- A run that starts at `start`, of a checked program. Where it is `strict`, values
are followed as well as names. -/
structure Setting where
  program : Program
  annotations : Annotations
  start : Moment
  strict : Strictness

namespace Setting

/-! ## Values -/

/-- The value may be where the type is expected. -/
inductive Suits (setting : Setting) (type : Ty) : Value → Prop where
  | admitted {value : Value} (plain : value.kind ≠ .list)
      (admits : type.admits value.kind = true) : Suits setting type value
  | missing {declared : Ty} (may : setting.strict.missing declared)
      (accepts : type.accepts declared = true) : Suits setting type .nil
  | rounded {number : Int} (may : setting.strict.rounded) (decimal : type = .decimal) :
      Suits setting type (.integer number)
  /-- A list is taken for what its elements are. -/
  | list {id : Nat} {element : Ty} (listed : setting.strict.lists[id]? = some element)
      (accepts : type.accepts element = true) : Suits setting type (.list id)

namespace Suits

variable {setting : Setting} {type : Ty} {value : Value}

theorem admits (suits : setting.Suits type value) (errors : setting.strict.errors) :
    type.admits value.kind = true := by
  rcases setting.strict.exact errors with ⟨_, present, unrounded, noLists⟩
  cases suits with
  | admitted _ admits => exact admits
  | missing may _ => exact absurd may (present _)
  | rounded may _ => exact absurd may unrounded
  | list listed _ =>
      rw [noLists] at listed
      cases listed

/-- A value that suits a type suits the types that accept it. -/
theorem of_accepts {actual : Ty} (accepts : type.accepts actual = true)
    (suits : setting.Suits actual value) : setting.Suits type value := by
  cases suits with
  | admitted plain admits => exact .admitted plain (Ty.admits_of_accepts accepts admits)
  | missing may accepted => exact .missing may (Ty.accepts_trans accepts accepted)
  | list listed accepted => exact .list listed (Ty.accepts_trans accepts accepted)
  | rounded may decimal =>
      subst decimal
      cases type with
      | any | comparable => exact .admitted nofun rfl
      | decimal => exact .rounded may rfl
      | nil | boolean | integer | character | string => cases accepts

theorem listed {id : Nat} (suits : setting.Suits type (.list id)) :
    ∃ element, setting.strict.lists[id]? = some element ∧ type.accepts element = true := by
  cases suits with
  | admitted plain _ => exact absurd rfl plain
  | list listed accepts => exact ⟨_, listed, accepts⟩

theorem nil (admits : type.admits .nil = true) : setting.Suits type .nil :=
  .admitted nofun admits

theorem ofLiteral {literal : Literal} (typed : literal.type = .ok type) :
    setting.Suits type (Value.ofLiteral literal) := by
  refine .admitted ?_ (Value.admits_ofLiteral typed)
  cases literal <;> nofun

theorem of_number {other : Value} (suits : setting.Suits type other)
    (number : other.isNumber = true) (kind : value.kind = other.kind) :
    setting.Suits type value := by
  cases suits with
  | admitted plain admits => exact .admitted (kind ▸ plain) (kind ▸ admits)
  | missing _ _ | list _ _ => cases number
  | rounded may decimal =>
      cases value with
      | integer _ => exact .rounded may decimal
      | _ => cases kind

theorem not_number (suits : setting.Suits .string value) : value.isNumber = false := by
  cases suits with
  | admitted _ admits =>
      rcases Value.eq_string_of_admits admits with ⟨text, rfl⟩
      rfl
  | missing _ _ | list _ _ => rfl
  | rounded _ decimal => cases decimal

theorem not_string (suits : setting.Suits type value)
    (numeric : type = .integer ∨ type = .decimal) : value.isString = false := by
  cases suits with
  | admitted _ admits =>
      rcases numeric with rfl | rfl
      · rcases Value.eq_integer_of_admits admits with ⟨number, rfl⟩
        rfl
      · rcases Value.eq_decimal_of_admits admits with ⟨number, rfl⟩
        rfl
  | missing _ _ | list _ _ | rounded _ _ => rfl

/-- What an operation gives suits the type of the operation. -/
theorem operate {lists : Lists} {operator : Operator} {left right : Value}
    {leftType rightType : Ty} (typed : operator.type leftType rightType = .ok type)
    (rounds : operator = .power → leftType = .decimal → setting.strict.rounded)
    (leftSuits : setting.Suits leftType left) (rightSuits : setting.Suits rightType right)
    (gives : left.operate lists operator right = .ok value) : setting.Suits type value := by
  cases Value.combines_of_operate gives with
  | decides level =>
      have boolean : type = .boolean := by
        rcases level with logical | comparison
        · exact (Operator.type_logical logical typed).2.2
        · exact (Operator.type_comparison comparison typed).2
      subst boolean
      exact .admitted nofun rfl
  | joins either =>
      rcases Operator.type_add typed with ⟨_, rfl⟩ | numeric
      · exact .admitted nofun rfl
      · rcases either with isString | isString
        · rw [leftSuits.not_string numeric.left_number] at isString
          cases isString
        · rw [rightSuits.not_string numeric.right_number] at isString
          cases isString
  | computes arithmetic number alike kind =>
      have numeric : Operator.Numeric leftType rightType type := by
        simp only [List.mem_cons, List.not_mem_nil, or_false] at arithmetic
        rcases arithmetic with rfl | rfl | rfl | rfl
        · rcases Operator.type_add typed with ⟨rfl | rfl, _⟩ | numeric
          · rw [leftSuits.not_number] at number
            cases number
          · rw [← Value.isNumber_of_kind alike, rightSuits.not_number] at number
            cases number
          · exact numeric
        · exact Operator.type_arithmetic typed
        · exact Operator.type_arithmetic typed
        · exact Operator.type_arithmetic typed
      rw [numeric.left_eq] at leftSuits
      exact leftSuits.of_number number kind
  | raises number kind =>
      rcases Operator.type_power typed with ⟨rfl, _, rfl⟩ | ⟨rfl, _, rfl⟩
      · rcases kind with same | isInteger
        · exact leftSuits.of_number number same
        · exact .admitted (by rw [isInteger]; nofun) (by rw [isInteger]; rfl)
      · rcases kind with same | isInteger
        · exact leftSuits.of_number number same
        · cases value with
          | integer _ => exact .rounded (rounds rfl rfl) rfl
          | _ => cases isInteger

end Suits

/-! ## Cells and lists -/

/-- The cell belongs to a variable whose declaration has the type. -/
def Holds (setting : Setting) (cell : Nat) (type : Ty) : Prop :=
  ∃ creating declaration, setting.start.Includes creating ∧ creating.Creates declaration cell ∧
    setting.program.declaredType setting.annotations declaration = some type

/-- Every cell holds a value that suits the type of its variable, and so does every list
with the type of its elements. -/
structure StoreFits (setting : Setting) (machine : Machine) : Prop where
  cells : setting.strict → ∀ cell type, setting.Holds cell type → cell < machine.cells.size →
    setting.Suits type (machine.cell cell)
  elements : setting.strict → ∀ id type, setting.strict.lists[id]? = some type →
    ∀ value ∈ machine.memory.lists.elements id, setting.Suits type value

variable {setting : Setting}

theorem Holds.unique {cell : Nat} {left right : Ty} (leftHolds : setting.Holds cell left)
    (rightHolds : setting.Holds cell right) : left = right := by
  rcases leftHolds with ⟨leftMoment, leftDeclaration, leftIncluded, leftCreates, leftType⟩
  rcases rightHolds with ⟨rightMoment, rightDeclaration, rightIncluded, rightCreates, rightType⟩
  have same := leftIncluded.creates_unique rightIncluded leftCreates rightCreates
  subst same
  rcases leftCreates with ⟨_, _, _, _, leftDefines, _⟩
  rcases rightCreates with ⟨_, _, _, _, rightDefines, _⟩
  rw [leftDefines] at rightDefines
  cases rightDefines
  rw [leftType] at rightType
  exact Option.some.inj rightType

namespace StoreFits

variable {machine : Machine}

theorem of_lenient (lenient : ¬setting.strict) : setting.StoreFits machine :=
  ⟨fun strict => absurd strict lenient, fun strict => absurd strict lenient⟩

theorem of_eq {before after : Machine} (fit : setting.StoreFits before)
    (cells : after.cells = before.cells) (lists : after.memory.lists = before.memory.lists) :
    setting.StoreFits after := by
  constructor
  · intro strict cell type holds present
    have same : after.cell cell = before.cell cell := by simp only [Machine.cell, cells]
    rw [same]
    rw [cells] at present
    exact fit.cells strict cell type holds present
  · rw [lists]
    exact fit.elements

/-- The list that a variable of an exact type holds has elements of just that type. -/
theorem eq_of_listed {cell id : Nat} {type element : Ty} (fit : setting.StoreFits machine)
    (strict : setting.strict) (holds : setting.Holds cell type)
    (present : cell < machine.cells.size) (isList : machine.cell cell = .list id)
    (listed : setting.strict.lists[id]? = some element) (notAny : type ≠ .any)
    (notComparable : type ≠ .comparable) : type = element := by
  have held := fit.cells strict cell type holds present
  rw [isList] at held
  rcases held.listed with ⟨other, otherListed, accepts⟩
  rw [listed] at otherListed
  cases otherListed
  exact (Ty.eq_of_accepts notAny notComparable accepts).symm

theorem setCell (fit : setting.StoreFits machine) {cell : Nat} {value : Value}
    (suits : setting.strict → ∃ type, setting.Holds cell type ∧ setting.Suits type value) :
    setting.StoreFits (machine.setCell cell value) := by
  refine ⟨fun strict other type holds present => ?_, fit.elements⟩
  rw [Machine.setCell, Array.size_setIfInBounds] at present
  by_cases same : cell = other
  · subst same
    rcases suits strict with ⟨stored, storedHolds, suited⟩
    have read : (machine.setCell cell value).cell cell = value := by
      simp [Machine.cell, Machine.setCell, present]
    rw [read, holds.unique storedHolds]
    exact suited
  · have read : (machine.setCell cell value).cell other = machine.cell other := by
      simp [Machine.cell, Machine.setCell, same]
    rw [read]
    exact fit.cells strict other type holds present

theorem push {scopes : Scope.Tree Machine.Variable Machine.Function}
    (fit : setting.StoreFits machine) {value : Value}
    (suits : setting.strict → ∃ type, setting.Holds machine.cells.size type ∧
      setting.Suits type value) :
    setting.StoreFits { machine with scopes, cells := machine.cells.push value } := by
  refine ⟨fun strict other type holds present => ?_, fit.elements⟩
  rw [Array.size_push] at present
  by_cases new : other = machine.cells.size
  · subst new
    rcases suits strict with ⟨stored, storedHolds, suited⟩
    rw [holds.unique storedHolds]
    simpa [Machine.cell] using suited
  · have earlier : other < machine.cells.size := by omega
    have fits := fit.cells strict other type holds earlier
    simpa [Machine.cell, Array.getElem?_push, new] using fits

theorem allocate (fit : setting.StoreFits machine) {values : List Value}
    (suits : setting.strict → ∀ type,
      setting.strict.lists[machine.memory.lists.size]? = some type →
        ∀ value ∈ values, setting.Suits type value) :
    setting.StoreFits { machine with memory := (machine.memory.allocate values).2 } := by
  refine ⟨fit.cells, fun strict id type listed value inside => ?_⟩
  have member : value ∈ (machine.memory.allocate values).2.lists.elements id := inside
  rw [Memory.elements_allocate] at member
  split at member
  · rename_i new
    subst new
    exact suits strict type listed value member
  · exact fit.elements strict id type listed value member

theorem setElement (fit : setting.StoreFits machine) {id index : Nat} {value : Value}
    (suits : setting.strict → ∀ type, setting.strict.lists[id]? = some type →
      setting.Suits type value) :
    setting.StoreFits { machine with memory := machine.memory.setElement id index value } := by
  refine ⟨fit.cells, fun strict other type listed element inside => ?_⟩
  have before := fit.elements strict other type listed
  have member : element ∈ (machine.memory.setElement id index value).lists.elements other :=
    inside
  by_cases same : id = other
  · subst same
    rw [Memory.elements_setElement] at member
    rcases List.mem_or_eq_of_mem_set member with old | rfl
    · exact before element old
    · exact suits strict type listed
  · rw [Memory.elements_setElement_ne _ same] at member
    exact before element member

end StoreFits

/-! ## Functions and names -/

/-- A global that is found in place of the result of a function has a type that is accepted
where the result is read. -/
def ReadFits (setting : Setting) (term : Expr) : Prop :=
  ∀ moment cell type, setting.start.Includes moment → moment.FindsGlobal term cell →
    setting.Holds cell type →
      ∃ noted, setting.annotations.Notes term.node.id noted ∧ noted.accepts type = true

def TermFits (setting : Setting) : Expr → Prop
  | .access node name => setting.ReadFits (.access node name)
  | .element node name index => setting.ReadFits (.element node name index)
  | .binary _ operator left _ =>
      operator = .power → setting.annotations.Notes left.node.id .decimal →
        setting.strict.rounded
  | _ => True

structure TermsFit (setting : Setting) (terms : List Expr) : Prop where
  each : setting.strict → ∀ term ∈ terms, setting.TermFits term
  fragment : setting.strict.errors → ∀ term ∈ terms, term.InFragment setting.annotations

/-- A variable has a first value, unless one that is missing suits its type. -/
def Opens (setting : Setting) (typeName : Option String) (value : Option Expr) : Prop :=
  value.isSome ∨
    ∀ type, Ty.ofOptionalName typeName = .ok (some type) → setting.Suits type .nil

def GlobalsFit (setting : Setting) (declarations : List Global) : Prop :=
  ∀ declaration ∈ declarations, setting.Opens declaration.typeName declaration.value

/-- What a strict run needs of a statement in a function with the result. The checker sees to
the values that are returned as long as no block declares a `RETURN` of its own, and to the
elements that are assigned as long as the variable of the list has an exact type. -/
def StatementFits (setting : Setting) (result : Ty) : Stmt → Prop
  | .declaration _ _ typeName value => setting.Opens typeName value
  | .assignment receiver value =>
      (∀ node, receiver.read? ≠ some (node, "RETURN")) ∧
      ∀ moment id type, setting.start.Includes moment → moment.Writes receiver value id →
        setting.strict.lists[id]? = some type →
        setting.annotations.Notes receiver.node.id .any ∨
          setting.annotations.Notes receiver.node.id .comparable →
        ∃ actual, setting.annotations.Notes value.node.id actual ∧ type.accepts actual = true
  | .returns value => ∀ moment, setting.start.Includes moment →
      moment.activity = .execute (.returns value) →
        ∃ actual, setting.annotations.Notes value.node.id actual ∧ result.accepts actual = true
  | _ => True

def StatementsFit (setting : Setting) (result : Ty) (statements : List Stmt) : Prop :=
  setting.strict → ∀ statement ∈ statements, setting.StatementFits result statement

/-- The body of the procedure is what the signature says. It is typed in one of the
contexts that `bodies` says, with the parameters in it. -/
structure BodyFits (setting : Setting) (bodies : Context → Prop) (procedure : Procedure)
    (signature : Signature) (context body : Context) : Prop where
  known : bodies context
  arity : signature.parameters.length = procedure.parameters.length
  opens : bodyContext context (procedure.parameters.map (·.name)) signature = .ok body
  typed : Stmt.AllTyped setting.annotations.Notes body procedure.body
  termsFit : setting.TermsFit (Stmt.subtermsOfAll procedure.body)
  statementsFit : setting.StatementsFit signature.result (Stmt.nestedInAll procedure.body)
  /-- A body that may end without a return gives nothing. -/
  returns : setting.strict → setting.Suits signature.result .nil ∨
    Stmt.blockReturns procedure.body = true
  parameters : setting.strict → ∀ index type, signature.parameters[index]? = some type →
    setting.program.declaredType setting.annotations
      (.parameter procedure.name procedure.parameters.length index) = some type

/-- What a machine calls is what the signature says. -/
inductive Realises (setting : Setting) (bodies : Context → Prop) (function : Machine.Function)
    (signature : Signature) : Prop where
  | native {behaviour : Native} (callable : function.callable = .native behaviour)
      (faults : ∀ arguments memory error after,
        (behaviour arguments).run memory = (.error (.fault error), after) →
          error.isNaming = false ∧ (setting.strict.errors → error.isTyping = false))
      (gives : setting.strict → ∀ arguments memory result after,
        (behaviour arguments).run memory = (result, after) →
          after.lists = memory.lists ∧
            ∀ value, result = .ok value → setting.Suits signature.result value)
  | declared {procedure : Procedure} {context body : Context}
      (signed : function.signature =
        Machine.untyped procedure.name procedure.parameters.length)
      (callable : function.callable =
        .declared (procedure.parameters.map (·.name)) procedure.body Machine.global)
      (fits : setting.BodyFits bodies procedure signature context body)

/-- What the name of a variable of the type stands for in the scope at `position`. The result
of a function is no variable of a run: under its name at most a global is found. -/
inductive Stands (setting : Setting) (machine : Machine) (position : Nat) (name : String)
    (type : Ty) : Prop where
  | defined {bound : Machine.Variable}
      (looked : machine.scopes.lookup position name = some bound)
      (present : bound.cell < machine.cells.size)
      (holds : setting.strict → setting.Holds bound.cell type)
  | result (isReturn : name = "RETURN") (apart : position ≠ Machine.global)
      (around : Machine.global ∈ machine.scopes.path position)
      (looked : machine.scopes.lookup position name =
        (machine.scopes.scope Machine.global).lookup name)
      (global : ∀ bound, (machine.scopes.scope Machine.global).lookup name = some bound →
        bound.cell < machine.cells.size ∧
          (setting.strict → ∃ stored, setting.Holds bound.cell stored))

namespace Stands

variable {machine after : Machine} {position place : Nat} {name : String} {type : Ty}

/-- It matters only what the name stands for in the scope and among the globals. -/
theorem transfer (stands : setting.Stands machine position name type)
    (lookup : after.scopes.lookup place name = machine.scopes.lookup position name)
    (cells : machine.cells.size ≤ after.cells.size)
    (globals : position ≠ Machine.global → Machine.global ∈ machine.scopes.path position →
      place ≠ Machine.global ∧ Machine.global ∈ after.scopes.path place ∧
        (after.scopes.scope Machine.global).lookup name =
          (machine.scopes.scope Machine.global).lookup name) :
    setting.Stands after place name type := by
  cases stands with
  | defined looked present holds =>
      exact .defined (lookup.trans looked) (Nat.lt_of_lt_of_le present cells) holds
  | result isReturn apart around looked global =>
      rcases globals apart around with ⟨apart, around, same⟩
      refine .result isReturn apart around ?_ fun bound found => ?_
      · rw [lookup, same, looked]
      · rw [same] at found
        rcases global bound found with ⟨present, holds⟩
        exact ⟨Nat.lt_of_lt_of_le present cells, holds⟩

theorem framed {gains : Nat → String → Prop}
    (stands : setting.Stands machine position name type) (framed : machine.Framed gains after)
    (inside : ∀ place ∈ machine.scopes.path position, place < machine.scopes.places.size)
    (untouched : ∀ place ∈ machine.scopes.path position, ¬gains place name) :
    setting.Stands after position name type := by
  refine stands.transfer (framed.lookup_eq inside untouched) framed.cells
    fun apart around => ⟨apart, ?_, ?_⟩
  · rw [framed.path_eq (inside position List.mem_cons_self)]
    exact around
  · exact framed.unchanged Machine.global (inside _ around) name (untouched _ around)

theorem child (stands : setting.Stands machine position name type)
    (inside : ∀ place ∈ machine.scopes.path position, place < machine.scopes.places.size) :
    setting.Stands (machine.child position).2 machine.scopes.places.size name type := by
  refine stands.transfer (machine.scopes.lookup_child position name) (Nat.le_refl _)
    fun _ around => ⟨Nat.ne_of_gt (inside _ around), ?_, ?_⟩
  · have path : (machine.child position).2.scopes.path machine.scopes.places.size =
        machine.scopes.places.size :: machine.scopes.path position :=
      machine.scopes.path_child position
    rw [path]
    exact List.mem_cons_of_mem _ around
  · simp [Machine.child]

end Stands

/-- The names of the context have a meaning in the scope at `position`. -/
structure Agrees (setting : Setting) (bodies : Context → Prop) (context : Context)
    (machine : Machine) (position : Nat) : Prop where
  inside : ∀ place ∈ machine.scopes.path position, place < machine.scopes.places.size
  stands : ∀ name found, context.lookup name = some found →
    setting.Stands machine position name found.type
  functions : ∀ name arity signature, context.lookupFunction name arity = some signature →
    signature.arity = arity ∧ ∃ function,
      machine.scopes.lookupFunction position name arity = some function ∧
        setting.Realises bodies function signature
  /-- What is defined in the scope itself is declared in the innermost block. -/
  declared : ∀ name, ((machine.scopes.scope position).lookup name).isSome →
    (context.inner.lookup name).isSome

namespace Agrees

variable {bodies : Context → Prop} {context : Context} {machine : Machine} {position : Nat}

theorem present (agrees : setting.Agrees bodies context machine position) :
    position < machine.scopes.places.size :=
  agrees.inside position List.mem_cons_self

theorem atScope (agrees : setting.Agrees bodies context machine position) (current : Nat) :
    setting.Agrees bodies context { machine with current } position where
  inside := agrees.inside
  stands name found known :=
    (agrees.stands name found known).transfer rfl (Nat.le_refl _) fun apart around =>
      ⟨apart, around, rfl⟩
  functions := agrees.functions
  declared := agrees.declared

theorem below {smaller : Context} (agrees : setting.Agrees bodies context machine position)
    (below : smaller.Below context) : setting.Agrees bodies smaller machine position where
  inside := agrees.inside
  stands name found known := agrees.stands name found (below.lookup name ▸ known)
  functions name arity signature known :=
    agrees.functions name arity signature (below.functions name arity signature known)
  declared name defined := by
    rw [below.inner]
    exact agrees.declared name defined

theorem framed {after : Machine} {gains : Nat → String → Prop}
    (agrees : setting.Agrees bodies context machine position)
    (framed : machine.Framed gains after)
    (untouched : ∀ place ∈ machine.scopes.path position, ∀ name, ¬gains place name) :
    setting.Agrees bodies context after position := by
  have lookupFunction := framed.lookupFunction_eq agrees.inside
  constructor
  · intro place member
    rw [framed.path_eq agrees.present] at member
    exact Nat.lt_of_lt_of_le (agrees.inside place member) framed.places
  · intro name found known
    exact (agrees.stands name found known).framed framed agrees.inside
      fun place member => untouched place member name
  · intro name arity signature known
    rcases agrees.functions name arity signature known with ⟨same, function, looked, realises⟩
    exact ⟨same, function, (lookupFunction name arity).trans looked, realises⟩
  · intro name defined
    rw [framed.unchanged position agrees.present name
      (untouched position List.mem_cons_self name)] at defined
    exact agrees.declared name defined

theorem enter (agrees : setting.Agrees bodies context machine position)
    {inner : Scope Variable Signature}
    (stands : ∀ name found,
      (⟨inner, context.inner :: context.outer⟩ : Context).lookup name = some found →
        setting.Stands (machine.child position).2 machine.scopes.places.size name found.type)
    (functions : ∀ name arity, inner.lookupFunction name arity = none) :
    setting.Agrees bodies ⟨inner, context.inner :: context.outer⟩ (machine.child position).2
      machine.scopes.places.size := by
  refine ⟨?_, stands, ?_, ?_⟩
  · intro place member
    have member : place ∈ machine.scopes.places.size :: machine.scopes.path position :=
      machine.scopes.path_child position ▸ member
    rw [Machine.child, Scope.Tree.size_child]
    rcases List.mem_cons.mp member with rfl | outside
    · exact Nat.lt_succ_self _
    · exact Nat.lt_succ_of_lt (agrees.inside place outside)
  · intro name arity signature known
    rw [Context.lookupFunction_eq, functions name arity] at known
    rcases agrees.functions name arity signature known with ⟨same, function, looked, realises⟩
    exact ⟨same, function, (machine.scopes.lookupFunction_child position name arity).trans looked,
      realises⟩
  · intro name defined
    simp [Machine.child] at defined

theorem child (agrees : setting.Agrees bodies context machine position) :
    setting.Agrees bodies context.nest (machine.child position).2 machine.scopes.places.size :=
  agrees.enter (fun name found known =>
    (agrees.stands name found (context.lookup_nest name ▸ known)).child agrees.inside)
    fun _ _ => rfl

/-- What is found in the outermost scope is a variable that was declared. -/
theorem global (agrees : setting.Agrees bodies context machine Machine.global)
    (outermost : machine.scopes.outer Machine.global = []) {name : String}
    {bound : Machine.Variable}
    (looked : (machine.scopes.scope Machine.global).lookup name = some bound) :
    bound.cell < machine.cells.size ∧
      (setting.strict → ∃ stored, setting.Holds bound.cell stored) := by
  rcases Option.isSome_iff_exists.mp (agrees.declared name (Option.isSome_of_eq_some looked)) with
    ⟨found, declared⟩
  have known : context.lookup name = some found := by
    rw [Context.lookup_eq, declared]
    rfl
  cases agrees.stands name found known with
  | defined same present holds =>
      rw [Scope.Tree.lookup_of_outer_eq_nil outermost, looked] at same
      cases same
      exact ⟨present, fun strict => ⟨found.type, holds strict⟩⟩
  | result _ apart _ _ _ => exact absurd rfl apart

/-- The scope of a function has a result for the checker, and is empty when the function
runs. -/
theorem function (agrees : setting.Agrees bodies context machine Machine.global)
    (outermost : machine.scopes.outer Machine.global = []) (result : Ty) :
    setting.Agrees bodies
      ⟨⟨[("RETURN", ⟨"RETURN", result, false⟩)], []⟩, context.inner :: context.outer⟩
      (machine.child Machine.global).2 machine.scopes.places.size := by
  refine agrees.enter (fun name found known => ?_) fun _ _ => rfl
  by_cases isReturn : name = "RETURN"
  · subst isReturn
    have around : Machine.global ∈ (machine.child Machine.global).2.scopes.path
        machine.scopes.places.size := by
      rw [Machine.child, Scope.Tree.path_child]
      exact List.mem_cons_of_mem _ List.mem_cons_self
    have apart : machine.scopes.places.size ≠ Machine.global := Nat.ne_of_gt agrees.present
    refine .result rfl apart around ?_ ?_
    · rw [Machine.child, Scope.Tree.lookup_child, Scope.Tree.lookup_of_outer_eq_nil outermost,
        Scope.Tree.scope_child]
    · intro bound looked
      rw [Machine.child, Scope.Tree.scope_child] at looked
      exact agrees.global outermost looked
  · have absent : (⟨[("RETURN", ⟨"RETURN", result, false⟩)], []⟩ :
        Scope Variable Signature).lookup name = none := by
      simp [Scope.lookup, List.lookup_cons, beq_false_of_ne isReturn]
    rw [Context.lookup_eq, absent] at known
    exact (agrees.stands name found known).child agrees.inside

theorem defines {declared : Variable} {extended : Context} (value : Value)
    (agrees : setting.Agrees bodies context machine position)
    (declares : context.declare? declared = some extended) :
    ∃ scope, (machine.scopes.scope position).defineVariable? declared.name
        ⟨declared.name, .any, declared.isMutable, machine.cells.size⟩ = some scope ∧
      machine.defineVariable position declared.name .any declared.isMutable value =
        (true, { machine with
          scopes := machine.scopes.setScope position scope
          cells := machine.cells.push value }) := by
  rcases machine.defineVariable_cases position declared.name .any declared.isMutable value with
    ⟨taken, _⟩ | ⟨_, defined⟩
  · have twice := agrees.declared declared.name taken
    rw [Context.lookup_inner_of_declare? declares] at twice
    cases twice
  · exact defined

theorem extend {declared : Variable} {extended : Context} {value : Value}
    {scope : Scope Machine.Variable Machine.Function}
    (agrees : setting.Agrees bodies context machine position)
    (declares : context.declare? declared = some extended)
    (defined : (machine.scopes.scope position).defineVariable? declared.name
      ⟨declared.name, .any, declared.isMutable, machine.cells.size⟩ = some scope)
    (holds : setting.strict → setting.Holds machine.cells.size declared.type) :
    setting.Agrees bodies extended { machine with
      scopes := machine.scopes.setScope position scope
      cells := machine.cells.push value } position := by
  have lookup := Scope.Tree.lookup_of_defined defined agrees.inside
  have lookupFunction := Scope.Tree.lookupFunction_of_defined defined agrees.inside
  constructor
  · intro place member
    rw [Scope.Tree.size_setScope]
    exact agrees.inside place (Scope.Tree.path_setScope _ _ _ _ ▸ member)
  · intro name found known
    rw [Context.lookup_of_declare? declares] at known
    by_cases new : name = declared.name
    · subst new
      rw [if_pos rfl] at known
      cases known
      have looked := lookup declared.name
      rw [if_pos rfl] at looked
      exact .defined looked (by simp) holds
    · rw [if_neg new] at known
      refine (agrees.stands name found known).transfer ?_ ?_ fun apart around =>
        ⟨apart, ?_, ?_⟩
      · rw [lookup, if_neg new]
      · rw [Array.size_push]
        exact Nat.le_succ _
      · rw [Scope.Tree.path_setScope]
        exact around
      · rw [Scope.Tree.lookup_setScope_defined defined (agrees.inside _ around),
          if_neg fun both => new both.2]
  · intro name arity signature known
    rw [Context.lookupFunction_of_declare? declares] at known
    rcases agrees.functions name arity signature known with ⟨same, function, looked, realises⟩
    exact ⟨same, function, (lookupFunction name arity).trans looked, realises⟩
  · intro name looked
    rw [Scope.Tree.lookup_setScope_defined defined agrees.present] at looked
    rw [Context.inner_of_declare? declares]
    split
    · rfl
    · rename_i other
      rw [if_neg fun both => other both.2] at looked
      exact agrees.declared name looked

theorem extendFunction {extended : Context} {signature : Signature}
    {function : Machine.Function} {scope : Scope Machine.Variable Machine.Function}
    (agrees : setting.Agrees bodies context machine position)
    (declares : context.declareFunction? signature = some extended)
    (defined : (machine.scopes.scope position).defineFunction? signature.name signature.arity
      function = some scope)
    (realises : setting.Realises bodies function signature) :
    setting.Agrees bodies extended
      { machine with scopes := machine.scopes.setScope position scope } position := by
  have path := machine.scopes.path_setScope position position scope
  have lookup : ∀ name, (machine.scopes.setScope position scope).lookup position name =
      machine.scopes.lookup position name := fun name =>
    Scope.Tree.lookup_congr path fun place member =>
      Scope.Tree.lookup_setScope_definedFunction defined (agrees.inside place member) name
  constructor
  · intro place member
    rw [Scope.Tree.size_setScope]
    exact agrees.inside place (path ▸ member)
  · intro name found known
    rw [Context.lookup_of_declareFunction? declares] at known
    refine (agrees.stands name found known).transfer (lookup name) (Nat.le_refl _)
      fun apart around => ⟨apart, ?_, ?_⟩
    · rw [path]
      exact around
    · exact Scope.Tree.lookup_setScope_definedFunction defined (agrees.inside _ around) name
  · intro name arity found known
    rw [Context.lookupFunction_of_declareFunction? declares] at known
    by_cases new : (name, arity) = (signature.name, signature.arity)
    · rw [if_pos new] at known
      cases known
      cases new
      refine ⟨rfl, function, ?_, realises⟩
      rw [Scope.Tree.lookupFunction_eq,
        Scope.Tree.lookupFunction_setScope_definedFunction defined agrees.present,
        if_pos ⟨rfl, rfl⟩]
      rfl
    · rw [if_neg new] at known
      rcases agrees.functions name arity found known with ⟨same, other, looked, realised⟩
      refine ⟨same, other, ?_, realised⟩
      rw [← looked]
      apply Scope.Tree.lookupFunction_congr path
      intro place member
      rw [Scope.Tree.lookupFunction_setScope_definedFunction defined (agrees.inside place member),
        if_neg fun both => new both.2]
  · intro name looked
    rw [Scope.Tree.lookup_setScope_definedFunction defined agrees.present] at looked
    rw [Context.inner_of_declareFunction? declares]
    exact agrees.declared name looked

/-- Where no function has a body, it does not matter which contexts bodies have. -/
theorem ofNatives (others : Context → Prop)
    (agrees : setting.Agrees (fun _ => False) context machine position) :
    setting.Agrees others context machine position where
  inside := agrees.inside
  stands := agrees.stands
  functions name arity signature known := by
    rcases agrees.functions name arity signature known with ⟨same, function, looked, realises⟩
    refine ⟨same, function, looked, ?_⟩
    cases realises with
    | native callable faults gives => exact .native callable faults gives
    | declared _ _ fits => exact fits.known.elim
  declared := agrees.declared

end Agrees

end Setting

end Plc
