import Mathlib.Algebra.Group.Int.Defs
import Mathlib.Data.List.Forall2
import Mathlib.Logic.Function.Basic
import Plc.Program.Basic
import Plc.Typing.Context

/-! The type system as rules over immutable contexts, independent of how a program is
checked. A derivation comes with its typing: the expressions it gives a type to, each
after its parts. -/

namespace Plc.Judgement

open Typing (Variable)

/-! ## Contexts -/

structure Names where
  variableOf : String → Option Variable
  functionOf : String → Nat → Option Signature

namespace Names

def none : Names := ⟨fun _ => .none, fun _ _ => .none⟩

def addVariable (names : Names) (declared : Variable) : Names :=
  { names with variableOf := Function.update names.variableOf declared.name (some declared) }

def addFunction (names : Names) (signature : Signature) : Names where
  variableOf := names.variableOf
  functionOf name arity :=
    if (name, arity) = (signature.name, signature.arity) then some signature
    else names.functionOf name arity

end Names

/-- The scopes around a place in a program, innermost first. -/
abbrev Scopes := List Names

/-- The innermost scope with an entry decides what a name stands for. -/
inductive Finds (entry : Names → Option α) : Scopes → α → Prop where
  | here {names : Names} {outer : Scopes} {found : α} (has : entry names = some found) :
      Finds entry (names :: outer) found
  | outward {names : Names} {outer : Scopes} {found : α} (lacks : entry names = none)
      (later : Finds entry outer found) :
      Finds entry (names :: outer) found

/-- A variable is added to the innermost scope, which has no other of that name. -/
inductive Declares : Scopes → Variable → Scopes → Prop where
  | intro {names : Names} {outer : Scopes} {declared : Variable}
      (fresh : names.variableOf declared.name = none) :
      Declares (names :: outer) declared (names.addVariable declared :: outer)

inductive DeclaresAll : Scopes → List Variable → Scopes → Prop where
  | nil {scopes : Scopes} : DeclaresAll scopes [] scopes
  | cons {scopes middle last : Scopes} {head : Variable} {tail : List Variable}
      (first : Declares scopes head middle) (rest : DeclaresAll middle tail last) :
      DeclaresAll scopes (head :: tail) last

/-- A function is added to the innermost scope, which has no other of that name and
arity. -/
inductive DeclaresFunction : Scopes → Signature → Scopes → Prop where
  | intro {names : Names} {outer : Scopes} {signature : Signature}
      (fresh : names.functionOf signature.name signature.arity = none) :
      DeclaresFunction (names :: outer) signature (names.addFunction signature :: outer)

/-! ## Types -/

/-- A value of the second type may be stored where the first is expected. -/
inductive Assignable : Ty → Ty → Prop where
  | same (type : Ty) : Assignable type type
  | any (actual : Ty) : Assignable .any actual
  | comparable {actual : Ty}
      (ordered : actual ∈ [Ty.integer, .decimal, .character, .string]) :
      Assignable .comparable actual

inductive Stated : Option String → Option Ty → Prop where
  | unnamed : Stated none none
  | named (type : Ty) : Stated (some type.name) (some type)

/-- Whether a decimal is finite as a binary64 number is left open. -/
inductive LiteralType (finite : Decimal → Prop) : Literal → Ty → Prop where
  | nil : LiteralType finite .nil .nil
  | boolean (value : Bool) : LiteralType finite (.boolean value) .boolean
  | integer {value : Int} (atLeast : -2 ^ 31 ≤ value) (below : value < 2 ^ 31) :
      LiteralType finite (.integer value) .integer
  | decimal {value : Decimal} (fits : finite value) :
      LiteralType finite (.decimal value) .decimal
  | character (value : Char) : LiteralType finite (.character value) .character
  | string (value : String) : LiteralType finite (.string value) .string

inductive OperatorType : Operator → Ty → Ty → Ty → Prop where
  | logical {operator : Operator} (among : operator ∈ [Operator.and, .or]) :
      OperatorType operator .boolean .boolean .boolean
  | comparison {operator : Operator} {type : Ty}
      (among : operator ∈ [Operator.less, .greater, .equal, .notEqual])
      (ordered : Assignable .comparable type) :
      OperatorType operator type type .boolean
  | concatenation {left right : Ty} (text : left = .string ∨ right = .string) :
      OperatorType .add left right .string
  | arithmetic {operator : Operator} {type : Ty}
      (among : operator ∈ [Operator.add, .subtract, .multiply, .divide])
      (number : type ∈ [Ty.integer, .decimal]) :
      OperatorType operator type type type
  | power {type : Ty} (number : type ∈ [Ty.integer, .decimal]) :
      OperatorType .power type .integer type

/-! ## Expressions -/

section

variable (finite : Decimal → Prop)

mutual

inductive HasType : Scopes → Expr → Ty → List (Expr × Ty) → Prop where
  | literal {scopes : Scopes} {node : Node} {value : Literal} {type : Ty}
      (typed : LiteralType finite value type) :
      HasType scopes (.literal node value) type [(.literal node value, type)]
  | group {scopes : Scopes} {node inner : Node} {operator : Operator} {left right : Expr}
      {type : Ty} {parts : List (Expr × Ty)}
      (typed : HasType scopes (.binary inner operator left right) type parts) :
      HasType scopes (.group node (.binary inner operator left right)) type
        (parts ++ [(.group node (.binary inner operator left right), type)])
  | binary {scopes : Scopes} {node : Node} {operator : Operator} {left right : Expr}
      {leftType rightType type : Ty} {leftParts rightParts : List (Expr × Ty)}
      (leftTyped : HasType scopes left leftType leftParts)
      (rightTyped : HasType scopes right rightType rightParts)
      (operation : OperatorType operator leftType rightType type) :
      HasType scopes (.binary node operator left right) type
        (leftParts ++ rightParts ++ [(.binary node operator left right, type)])
  | access {scopes : Scopes} {node : Node} {name : String} {found : Variable}
      (finds : Finds (·.variableOf name) scopes found) :
      HasType scopes (.access node name) found.type [(.access node name, found.type)]
  | element {scopes : Scopes} {node : Node} {name : String} {index : Expr}
      {found : Variable} {parts : List (Expr × Ty)}
      (indexTyped : HasType scopes index .integer parts)
      (finds : Finds (·.variableOf name) scopes found) :
      HasType scopes (.element node name index) found.type
        (parts ++ [(.element node name index, found.type)])
  | call {scopes : Scopes} {node : Node} {name : String} {arguments : List Expr}
      {types : List Ty} {found : Signature} {parts : List (Expr × Ty)}
      (argumentsTyped : HaveTypes scopes arguments types parts)
      (finds : Finds (·.functionOf name arguments.length) scopes found)
      (fit : ∀ pair ∈ found.parameters.zip types, Assignable pair.1 pair.2) :
      HasType scopes (.call node name arguments) found.result
        (parts ++ [(.call node name arguments, found.result)])

inductive HaveTypes : Scopes → List Expr → List Ty → List (Expr × Ty) → Prop where
  | nil {scopes : Scopes} : HaveTypes scopes [] [] []
  | cons {scopes : Scopes} {head : Expr} {tail : List Expr} {type : Ty} {types : List Ty}
      {headParts tailParts : List (Expr × Ty)}
      (headTyped : HasType scopes head type headParts)
      (tailTyped : HaveTypes scopes tail types tailParts) :
      HaveTypes scopes (head :: tail) (type :: types) (headParts ++ tailParts)

end

/-- The type of a declared variable: the stated one, which the value has to fit, or else
the value's. -/
inductive Initializes (scopes : Scopes) :
    Option Ty → Option Expr → Ty → List (Expr × Ty) → Prop where
  | fits {value : Expr} {stated actual : Ty} {parts : List (Expr × Ty)}
      (typed : HasType finite scopes value actual parts)
      (assignable : Assignable stated actual) :
      Initializes scopes (some stated) (some value) stated parts
  | infers {value : Expr} {actual : Ty} {parts : List (Expr × Ty)}
      (typed : HasType finite scopes value actual parts) :
      Initializes scopes none (some value) actual parts
  | unset {stated : Ty} : Initializes scopes (some stated) none stated []

/-- The type of the elements of a list: the stated one, or else the first element's, or
else any. All elements have to fit it. -/
inductive ElementsHaveType (scopes : Scopes) (stated : Option Ty) (elements : List Expr) :
    Ty → List (Expr × Ty) → Prop where
  | intro {type : Ty} {types : List Ty} {parts : List (Expr × Ty)}
      (typed : HaveTypes finite scopes elements types parts)
      (chosen : (stated.or types.head?).getD .any = type)
      (fit : ∀ actual ∈ types, Assignable type actual) :
      ElementsHaveType scopes stated elements type parts

/-! ## Statements -/

mutual

/-- The statements that follow in the same block are typed in the second scopes. -/
inductive Typed : Scopes → Stmt → Scopes → List (Expr × Ty) → Prop where
  | expression {scopes : Scopes} {node : Node} {name : String} {arguments : List Expr}
      {type : Ty} {parts : List (Expr × Ty)}
      (typed : HasType finite scopes (.call node name arguments) type parts) :
      Typed scopes (.expression (.call node name arguments)) scopes parts
  | declaration {scopes extended : Scopes} {id : Nat} {name : String}
      {typeName : Option String} {stated : Option Ty} {value : Option Expr} {type : Ty}
      {parts : List (Expr × Ty)} (states : Stated typeName stated)
      (initializes : Initializes finite scopes stated value type parts)
      (declares : Declares scopes ⟨name, type, true⟩ extended) :
      Typed scopes (.declaration id name typeName value) extended parts
  | assignment {scopes : Scopes} {receiver value : Expr} {target actual : Ty}
      {receiverParts valueParts : List (Expr × Ty)} (receives : receiver.isReceiver = true)
      (receiverTyped : HasType finite scopes receiver target receiverParts)
      (valueTyped : HasType finite scopes value actual valueParts)
      (assignable : Assignable target actual) :
      Typed scopes (.assignment receiver value) scopes (receiverParts ++ valueParts)
  | conditional {scopes : Scopes} {condition : Expr} {whenTrue whenFalse : List Stmt}
      {parts trueParts falseParts : List (Expr × Ty)}
      (conditionTyped : HasType finite scopes condition .boolean parts)
      (nonempty : whenTrue ≠ [])
      (trueTyped : AllTyped (.none :: scopes) whenTrue trueParts)
      (falseTyped : AllTyped (.none :: scopes) whenFalse falseParts) :
      Typed scopes (.conditional condition whenTrue whenFalse) scopes
        (parts ++ trueParts ++ falseParts)
  | switch {scopes : Scopes} {condition : Expr} {cases : List Case} {type : Ty}
      {parts casesParts : List (Expr × Ty)}
      (conditionTyped : HasType finite scopes condition type parts)
      (casesTyped : CasesTyped scopes type cases casesParts) :
      Typed scopes (.switch condition cases) scopes (parts ++ casesParts)
  | loop {scopes : Scopes} {condition : Expr} {body : List Stmt}
      {parts bodyParts : List (Expr × Ty)}
      (conditionTyped : HasType finite scopes condition .boolean parts)
      (bodyTyped : AllTyped (.none :: scopes) body bodyParts) :
      Typed scopes (.loop condition body) scopes (parts ++ bodyParts)
  | returns {scopes : Scopes} {value : Expr} {expected : Variable} {actual : Ty}
      {parts : List (Expr × Ty)}
      (finds : Finds (·.variableOf "RETURN") scopes expected)
      (typed : HasType finite scopes value actual parts)
      (assignable : Assignable expected.type actual) :
      Typed scopes (.returns value) scopes parts

inductive AllTyped : Scopes → List Stmt → List (Expr × Ty) → Prop where
  | nil {scopes : Scopes} : AllTyped scopes [] []
  | cons {scopes extended : Scopes} {head : Stmt} {tail : List Stmt}
      {headParts tailParts : List (Expr × Ty)}
      (headTyped : Typed scopes head extended headParts)
      (tailTyped : AllTyped extended tail tailParts) :
      AllTyped scopes (head :: tail) (headParts ++ tailParts)

/-- The last case, and no other, is the default; the values of the others fit the type. -/
inductive CasesTyped : Scopes → Ty → List Case → List (Expr × Ty) → Prop where
  | nil {scopes : Scopes} {type : Ty} : CasesTyped scopes type [] []
  | default {scopes : Scopes} {type : Ty} {body : List Stmt} {parts : List (Expr × Ty)}
      (bodyTyped : AllTyped (.none :: scopes) body parts) :
      CasesTyped scopes type [.mk none body] parts
  | cons {scopes : Scopes} {type actual : Ty} {value : Expr} {body : List Stmt}
      {tail : List Case} {valueParts bodyParts tailParts : List (Expr × Ty)}
      (valueTyped : HasType finite scopes value actual valueParts)
      (assignable : Assignable type actual)
      (bodyTyped : AllTyped (.none :: scopes) body bodyParts)
      (others : tail ≠ [])
      (tailTyped : CasesTyped scopes type tail tailParts) :
      CasesTyped scopes type (.mk (some value) body :: tail)
        (valueParts ++ bodyParts ++ tailParts)

end

/-! ## Programs -/

inductive GlobalTyped (scopes : Scopes) (declaration : Global) :
    Scopes → List (Expr × Ty) → Prop where
  | list {node : Node} {elements : List Expr} {stated : Option Ty} {type : Ty}
      {extended : Scopes} {parts : List (Expr × Ty)}
      (isList : declaration.value = some (.list node elements))
      (states : Stated declaration.typeName stated)
      (elementsTyped : ElementsHaveType finite scopes stated elements type parts)
      (declares : Declares scopes ⟨declaration.name, type, declaration.isMutable⟩ extended) :
      GlobalTyped scopes declaration extended (parts ++ [(.list node elements, type)])
  | plain {stated : Option Ty} {type : Ty} {extended : Scopes} {parts : List (Expr × Ty)}
      (states : Stated declaration.typeName stated)
      (initializes : Initializes finite scopes stated declaration.value type parts)
      (declares : Declares scopes ⟨declaration.name, type, declaration.isMutable⟩ extended) :
      GlobalTyped scopes declaration extended parts

/-- The stated type, or the given one where none is stated. -/
def StatedOr (otherwise : Ty) (typeName : Option String) (type : Ty) : Prop :=
  ∃ stated, Stated typeName stated ∧ stated.getD otherwise = type

/-- A function is known to its own body and to what follows it. `RETURN` is an immutable
variable of its scope like any other, and the parameters are declared after it. -/
inductive ProcedureTyped (scopes : Scopes) (procedure : Procedure) :
    Scopes → List (Expr × Ty) → Prop where
  | intro {types : List Ty} {result : Ty} {extended start body : Scopes}
      {parts : List (Expr × Ty)}
      (parametersStated : List.Forall₂ (StatedOr .any)
        (procedure.parameters.map (·.typeName)) types)
      (resultStated : StatedOr .nil procedure.resultTypeName result)
      (known : DeclaresFunction scopes ⟨procedure.name, procedure.name, types, result⟩
        extended)
      (returning : Declares (.none :: extended) ⟨"RETURN", result, false⟩ start)
      (parametersDeclared : DeclaresAll start
        (procedure.parameters.zipWith (fun parameter type => ⟨parameter.name, type, true⟩)
          types) body)
      (bodyTyped : AllTyped finite body procedure.body parts) :
      ProcedureTyped scopes procedure extended parts

end

inductive Sequence (typed : Scopes → α → Scopes → List (Expr × Ty) → Prop) :
    Scopes → List α → Scopes → List (Expr × Ty) → Prop where
  | nil {scopes : Scopes} : Sequence typed scopes [] scopes []
  | cons {scopes middle last : Scopes} {head : α} {tail : List α}
      {headParts tailParts : List (Expr × Ty)}
      (first : typed scopes head middle headParts)
      (rest : Sequence typed middle tail last tailParts) :
      Sequence typed scopes (head :: tail) last (headParts ++ tailParts)

/-- Globals come first and functions after them; `main` is one that takes nothing and
gives an integer. -/
inductive ProgramTyped (finite : Decimal → Prop) (scopes : Scopes) (program : Program) :
    List (Expr × Ty) → Prop where
  | intro {middle last : Scopes} {main : Signature}
      {globalParts procedureParts : List (Expr × Ty)}
      (globals : Sequence (GlobalTyped finite) scopes program.globals middle globalParts)
      (procedures : Sequence (ProcedureTyped finite) middle program.procedures last
        procedureParts)
      (finds : Finds (·.functionOf "main" 0) last main)
      (integer : main.result = .integer) :
      ProgramTyped finite scopes program (globalParts ++ procedureParts)

/-- The scope of the host: printing, and the functions with the given signatures. The
first of a name and arity counts. -/
def hosts (signatures : List Signature) : Scopes :=
  [{ Names.none with
    functionOf := fun name arity => (Signature.print :: signatures).find? fun signature =>
      decide ((signature.name, signature.arity) = (name, arity)) }]

end Plc.Judgement
