import Plc.Proofs.Grammar.Offsets
import Plc.Proofs.Soundness.Fragment

/-! What can be assigned to in a program that was read from tokens. A statement that begins with
`RETURN` is one that returns, so nothing is assigned under that name. -/

namespace Plc

/-- Nothing that the statements assign to is called `RETURN`. -/
def Stmt.NamesReceivers (statements : List Stmt) : Prop :=
  ∀ receiver value, Stmt.assignment receiver value ∈ statements →
    ∀ node, receiver.read? ≠ some (node, "RETURN")

namespace Stmt.NamesReceivers

variable {first second : List Stmt} {head : Stmt}

theorem append (left : NamesReceivers first) (right : NamesReceivers second) :
    NamesReceivers (first ++ second) := fun receiver value member =>
  (List.mem_append.mp member).elim (left receiver value) (right receiver value)

theorem nil : NamesReceivers [] := fun _ _ member => absurd member List.not_mem_nil

theorem cons (other : ∀ receiver value, head ≠ .assignment receiver value)
    (tail : NamesReceivers first) : NamesReceivers (head :: first) := fun receiver value member =>
  (List.mem_cons.mp member).elim (fun same => absurd same.symm (other receiver value))
    (tail receiver value)

theorem nestedInAll {statements : List Stmt}
    (each : ∀ statement ∈ statements, NamesReceivers statement.nested) :
    NamesReceivers (Stmt.nestedInAll statements) := by
  induction statements with
  | nil => exact nil
  | cons head tail induction =>
      rcases List.forall_mem_cons.mp each with ⟨headNames, tailNames⟩
      exact headNames.append (induction tailNames)

end Stmt.NamesReceivers

namespace Parser

/-! ## Results of parsers -/

/-- Whatever the parser reads, its result has the property. -/
def Yields (holds : α → Prop) (parser : Parser α) : Prop :=
  ∀ cursor result after, parser cursor = .ok (result, after) → holds result

namespace Yields

variable {holds : α → Prop} {parser : Parser α}

theorem any (parser : Parser α) : Yields (fun _ => True) parser := fun _ _ _ _ => trivial

theorem pure {value : α} (has : holds value) : Yields holds (pure value) := by
  intro cursor result after ran
  cases ran
  exact has

theorem bind {next : α → Parser β} {wanted : β → Prop} (firstYields : Yields holds parser)
    (second : ∀ value, holds value → Yields wanted (next value)) :
    Yields wanted (parser >>= next) := by
  intro cursor result after ran
  rcases bind_eq_ok ran with ⟨value, middle, first, rest⟩
  exact second value (firstYields cursor value middle first) middle result after rest

theorem of_next {next : α → Parser β} {wanted : β → Prop}
    (second : ∀ value, Yields wanted (next value)) : Yields wanted (parser >>= next) :=
  (any parser).bind fun value _ => second value

theorem ite {condition : Bool} {whenTrue whenFalse : Parser α}
    (whenTrueYields : Yields holds whenTrue) (whenFalseYields : Yields holds whenFalse) :
    Yields holds (if condition then whenTrue else whenFalse) := by
  cases condition <;> assumption

theorem absent : Yields (fun item? : Option α => ∀ item ∈ item?, holds item) (Pure.pure none) :=
  .pure nofun

theorem empty : Yields (fun results : List α => ∀ result ∈ results, holds result) (Pure.pure []) :=
  .pure nofun

theorem many {item? : Parser (Option α)}
    (item : Yields (fun found => ∀ item ∈ found, holds item) item?) :
    Yields (fun results => ∀ result ∈ results, holds result) (many item?) := by
  have upTo : ∀ count, Yields (fun results => ∀ result ∈ results, holds result)
      (manyUpTo item? count) := by
    intro count
    induction count with
    | zero => exact empty
    | succ count induction =>
        refine .bind item fun found has => ?_
        cases found with
        | none => exact empty
        | some first =>
            refine .bind induction fun rest others => ?_
            have all : ∀ result ∈ first :: rest, holds result :=
              List.forall_mem_cons.mpr ⟨has first rfl, others⟩
            exact .pure all
  exact .of_next fun _ => upTo _

end Yields

/-! ## Statements -/

/-- Nothing in the statements that a parser reads is assigned under the name `RETURN`. -/
abbrev Names (statements : α → List Stmt) (parser : Parser α) : Prop :=
  Yields (fun result => Stmt.NamesReceivers (statements result)) parser

section

variable {block : Parser (List Stmt)}

end

end Parser

end Plc
