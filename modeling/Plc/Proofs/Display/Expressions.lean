import Plc.Proofs.Display.Literals
import Plc.Proofs.Grammar.Bare

/-! The text of an expression as a symbolic expression. Expressions with the same text are the
same apart from their numbers and offsets, and from decimals that are zero. -/

namespace Plc

open Text Literal

namespace Expr

mutual

theorem displayIn_bare (style : Style) : ∀ expression : Expr,
    expression.bare.displayIn style = expression.displayIn style
  | .literal .. | .access .. => rfl
  | .group _ inner => by rw [bare, displayIn, displayIn_bare style inner, displayIn]
  | .binary _ _ left right => by
      rw [bare, displayIn, displayIn_bare style left, displayIn_bare style right, displayIn]
  | .element _ _ index => by rw [bare, displayIn, displayIn_bare style index, displayIn]
  | .call _ _ arguments => by
      rw [bare, displayIn, displayAllIn_bareAll style arguments, displayIn]
  | .list _ elements => by rw [bare, displayIn, displayAllIn_bareAll style elements, displayIn]

theorem displayAllIn_bareAll (style : Style) : ∀ expressions : List Expr,
    displayAllIn style (bareAll expressions) = displayAllIn style expressions
  | [] => rfl
  | head :: tail => by
      rw [bareAll, displayAllIn, displayIn_bare style head, displayAllIn_bareAll style tail,
        displayAllIn]

end

/-! ## Symbolic expressions -/

mutual

def symbolic (style : Style) : Expr → Symbolic
  | .literal _ value => .atom (value.displayIn style).toList
  | .group _ inner => .list .group [inner.symbolic style]
  | .binary _ operator left right =>
      .list (.operation operator) [left.symbolic style, right.symbolic style]
  | .access _ name => .atom name.toList
  | .element _ name index => .list .index [.atom name.toList, index.symbolic style]
  | .call _ name arguments => .list .call (.atom name.toList :: symbolicAll style arguments)
  | .list _ elements => .list .list (symbolicAll style elements)

def symbolicAll (style : Style) : List Expr → List Symbolic
  | [] => []
  | head :: tail => head.symbolic style :: symbolicAll style tail

end

mutual

theorem write_symbolic (style : Style) : ∀ expression : Expr,
    (expression.symbolic style).write = (expression.displayIn style).toList
  | .literal .. | .access .. => rfl
  | .group _ inner => by
      simp [symbolic, displayIn, Symbolic.write, Symbolic.writeAll, Form.word,
        write_symbolic style inner]
  | .binary _ operator left right => by
      simp [symbolic, displayIn, Symbolic.write, Symbolic.writeAll, Form.word,
        write_symbolic style left, write_symbolic style right]
  | .element _ _ index => by
      simp [symbolic, displayIn, Symbolic.write, Symbolic.writeAll, Form.word,
        write_symbolic style index]
  | .call _ _ arguments => by
      simp [symbolic, displayIn, Symbolic.write, Symbolic.writeAll, Form.word,
        writeAll_symbolicAll style arguments]
  | .list _ elements => by
      simp [symbolic, displayIn, Symbolic.write, Form.word,
        writeAll_symbolicAll style elements]

theorem writeAll_symbolicAll (style : Style) : ∀ expressions : List Expr,
    Symbolic.writeAll (symbolicAll style expressions) = (displayAllIn style expressions).toList
  | [] => rfl
  | head :: tail => by
      simp [symbolicAll, displayAllIn, Symbolic.writeAll, write_symbolic style head,
        writeAll_symbolicAll style tail]

end

/-! ## Expressions that can be told apart -/

/-- What the expression itself, apart from its parts, is written with: a name, or a literal
that is one of the decimals if it is a decimal. -/
def Legible (decimals : Set Decimal) : Expr → Prop
  | .literal _ value => value.Among decimals
  | .access _ name | .element _ name _ | .call _ name _ => IsName name
  | .group .. | .binary .. | .list .. => True

section

variable {style : Style} {decimals : Set Decimal}

mutual

theorem proper_symbolic (clear : style.Clear decimals) : ∀ {expression : Expr},
    (∀ part ∈ expression.subterms, part.Legible decimals) → (expression.symbolic style).Proper
  | .literal _ value, legible =>
      .atom (isAtom_displayIn clear (legible _ List.mem_cons_self))
  | .access .., legible => .atom (.word (legible _ List.mem_cons_self).word)
  | .group _ inner, legible => by
      have inside := proper_symbolic clear (List.forall_mem_cons.mp legible).2
      exact .list _ (by simpa using inside)
  | .binary _ _ left right, legible => by
      have parts := List.forall_mem_append.mp (List.forall_mem_cons.mp legible).2
      have inLeft := proper_symbolic clear parts.1
      have inRight := proper_symbolic clear parts.2
      exact .list _ (by simpa using ⟨inLeft, inRight⟩)
  | .element _ name index, legible => by
      have parts := List.forall_mem_cons.mp legible
      have inside := proper_symbolic clear parts.2
      have named : (Symbolic.atom name.toList).Proper := .atom (.word parts.1.word)
      exact .list _ (by simpa using ⟨named, inside⟩)
  | .call _ name arguments, legible => by
      have parts := List.forall_mem_cons.mp legible
      have inside := proper_symbolicAll clear parts.2
      exact .list _ (List.forall_mem_cons.mpr ⟨.atom (.word parts.1.word), inside⟩)
  | .list _ elements, legible =>
      .list _ (proper_symbolicAll clear (List.forall_mem_cons.mp legible).2)

theorem proper_symbolicAll (clear : style.Clear decimals) : ∀ {expressions : List Expr},
    (∀ part ∈ subtermsOfAll expressions, part.Legible decimals) →
      ∀ part ∈ symbolicAll style expressions, part.Proper
  | [], _ => nofun
  | head :: tail, legible => by
      have parts := List.forall_mem_append.mp legible
      exact List.forall_mem_cons.mpr
        ⟨proper_symbolic clear parts.1, proper_symbolicAll clear parts.2⟩

end

mutual

theorem bare_eq_of_symbolic (clear : style.Clear decimals) : ∀ {first second : Expr},
    (∀ part ∈ first.subterms, part.Legible decimals) →
      (∀ part ∈ second.subterms, part.Legible decimals) →
        first.symbolic style = second.symbolic style → first.bare = second.bare
  | .literal _ value, second, legible, other, same => by
      have known := legible _ List.mem_cons_self
      cases second with
      | literal _ otherValue =>
          have texts := String.toList_inj.mp (Symbolic.atom.inj same)
          rw [bare, bare, displayIn_inj clear known (other _ List.mem_cons_self) texts]
      | access _ name =>
          have texts := String.toList_inj.mp (Symbolic.atom.inj same)
          have named : IsName name := other _ List.mem_cons_self
          exact absurd texts.symm (named.ne_displayIn clear known)
      | _ => cases same
  | .access _ name, second, legible, other, same => by
      have named : IsName name := legible _ List.mem_cons_self
      cases second with
      | literal _ value =>
          have texts := String.toList_inj.mp (Symbolic.atom.inj same)
          exact absurd texts (named.ne_displayIn clear (other _ List.mem_cons_self))
      | access => rw [bare, bare, String.toList_inj.mp (Symbolic.atom.inj same)]
      | _ => cases same
  | .group _ inner, second, legible, other, same => by
      cases second with
      | group =>
          simp only [symbolic, Symbolic.list.injEq, List.cons.injEq, true_and, and_true] at same
          rw [bare, bare, bare_eq_of_symbolic clear (List.forall_mem_cons.mp legible).2
            (List.forall_mem_cons.mp other).2 same]
      | _ => cases same
  | .binary _ _ left right, second, legible, other, same => by
      cases second with
      | binary =>
          simp only [symbolic, Symbolic.list.injEq, Form.operation.injEq, List.cons.injEq,
            and_true] at same
          have parts := List.forall_mem_append.mp (List.forall_mem_cons.mp legible).2
          have otherParts := List.forall_mem_append.mp (List.forall_mem_cons.mp other).2
          rw [bare, bare, same.1, bare_eq_of_symbolic clear parts.1 otherParts.1 same.2.1,
            bare_eq_of_symbolic clear parts.2 otherParts.2 same.2.2]
      | _ => cases same
  | .element _ _ index, second, legible, other, same => by
      cases second with
      | element =>
          simp only [symbolic, Symbolic.list.injEq, List.cons.injEq, Symbolic.atom.injEq, true_and,
            and_true] at same
          rw [bare, bare, String.toList_inj.mp same.1, bare_eq_of_symbolic clear
            (List.forall_mem_cons.mp legible).2 (List.forall_mem_cons.mp other).2 same.2]
      | _ => cases same
  | .call _ _ arguments, second, legible, other, same => by
      cases second with
      | call =>
          simp only [symbolic, Symbolic.list.injEq, List.cons.injEq, Symbolic.atom.injEq,
            true_and] at same
          rw [bare, bare, String.toList_inj.mp same.1, bareAll_eq_of_symbolicAll clear
            (List.forall_mem_cons.mp legible).2 (List.forall_mem_cons.mp other).2 same.2]
      | _ => cases same
  | .list _ elements, second, legible, other, same => by
      cases second with
      | list =>
          simp only [symbolic, Symbolic.list.injEq, true_and] at same
          rw [bare, bare, bareAll_eq_of_symbolicAll clear (List.forall_mem_cons.mp legible).2
            (List.forall_mem_cons.mp other).2 same]
      | _ => cases same

theorem bareAll_eq_of_symbolicAll (clear : style.Clear decimals) :
    ∀ {first second : List Expr},
      (∀ part ∈ subtermsOfAll first, part.Legible decimals) →
        (∀ part ∈ subtermsOfAll second, part.Legible decimals) →
          symbolicAll style first = symbolicAll style second → bareAll first = bareAll second
  | [], [], _, _, _ => rfl
  | [], _ :: _, _, _, same | _ :: _, [], _, _, same => by cases same
  | head :: tail, second :: others, legible, other, same => by
      simp only [symbolicAll, List.cons.injEq] at same
      have parts := List.forall_mem_append.mp legible
      have otherParts := List.forall_mem_append.mp other
      rw [bareAll, bareAll, bare_eq_of_symbolic clear parts.1 otherParts.1 same.1,
        bareAll_eq_of_symbolicAll clear parts.2 otherParts.2 same.2]

end

theorem bare_eq_of_displayIn {first second : Expr} (clear : style.Clear decimals)
    (legible : ∀ part ∈ first.subterms, part.Legible decimals)
    (otherLegible : ∀ part ∈ second.subterms, part.Legible decimals)
    (same : first.displayIn style = second.displayIn style) : first.bare = second.bare := by
  apply bare_eq_of_symbolic clear legible otherLegible
  apply Symbolic.write_inj (proper_symbolic clear legible) (proper_symbolic clear otherLegible)
  rw [write_symbolic, same, write_symbolic]

end

/-! ## Decimals of an expression -/

def decimal? : Expr → Option Decimal
  | .literal _ (.decimal value) => some value
  | _ => none

def decimals (expression : Expr) : List Decimal :=
  expression.subterms.filterMap decimal?

theorem Legible.imp {expression : Expr} {decimals others : Set Decimal}
    (legible : expression.Legible decimals)
    (among : ∀ value ∈ expression.decimal?, value ∈ decimals → value ∈ others) :
    expression.Legible others := by
  cases expression with
  | literal node value =>
      cases value with
      | decimal value => exact among value rfl legible
      | _ => trivial
  | _ => exact legible

theorem legible_imp {expression : Expr} {decimals others : Set Decimal}
    (legible : ∀ part ∈ expression.subterms, part.Legible decimals)
    (among : ∀ value ∈ expression.decimals, value ∈ decimals → value ∈ others) :
    ∀ part ∈ expression.subterms, part.Legible others :=
  fun part member => (legible part member).imp fun value found =>
    among value (List.mem_filterMap.mpr ⟨part, member, found⟩)

/-! ## What the text of an expression shows -/

mutual

/-- The expression with the literals that its text is read as. -/
def shown : Expr → Expr
  | .literal node value => .literal node value.shown
  | .group node inner => .group node inner.shown
  | .binary node operator left right => .binary node operator left.shown right.shown
  | .access node name => .access node name
  | .element node name index => .element node name index.shown
  | .call node name arguments => .call node name (shownAll arguments)
  | .list node elements => .list node (shownAll elements)

def shownAll : List Expr → List Expr
  | [] => []
  | head :: tail => head.shown :: shownAll tail

end

section

variable (data : CharacterData)

mutual

theorem displayIn_shown : ∀ expression : Expr,
    expression.shown.displayIn (.printing data) = expression.displayIn (.printing data)
  | .literal _ value => value.displayIn_shown data
  | .group _ inner => by rw [shown, displayIn, displayIn_shown inner, displayIn]
  | .binary _ _ left right => by
      rw [shown, displayIn, displayIn_shown left, displayIn_shown right, displayIn]
  | .access .. => rfl
  | .element _ _ index => by rw [shown, displayIn, displayIn_shown index, displayIn]
  | .call _ _ arguments => by rw [shown, displayIn, displayAllIn_shownAll arguments, displayIn]
  | .list _ elements => by rw [shown, displayIn, displayAllIn_shownAll elements, displayIn]

theorem displayAllIn_shownAll : ∀ expressions : List Expr,
    displayAllIn (.printing data) (shownAll expressions) =
      displayAllIn (.printing data) expressions
  | [] => rfl
  | head :: tail => by
      rw [shownAll, displayAllIn, displayIn_shown head, displayAllIn_shownAll tail, displayAllIn]

end

end

mutual

theorem legible_shown : ∀ {expression : Expr},
    (∀ part ∈ expression.subterms, part.Legible {value | 0 < value.scale}) →
      ∀ part ∈ expression.shown.subterms,
        part.Legible {value | value.digits ≠ 0 ∧ 0 < value.scale}
  | .literal node value, legible => by
      have known : value.Among {value | 0 < value.scale} := legible _ List.mem_cons_self
      exact List.forall_mem_singleton.mpr (shown_among known)
  | .access .., legible => List.forall_mem_singleton.mpr (legible _ List.mem_cons_self)
  | .group _ inner, legible =>
      List.forall_mem_cons.mpr ⟨trivial, legible_shown (List.forall_mem_cons.mp legible).2⟩
  | .binary _ _ left right, legible => by
      have parts := List.forall_mem_append.mp (List.forall_mem_cons.mp legible).2
      exact List.forall_mem_cons.mpr ⟨trivial, List.forall_mem_append.mpr
        ⟨legible_shown parts.1, legible_shown parts.2⟩⟩
  | .element _ _ index, legible => by
      have parts := List.forall_mem_cons.mp legible
      exact List.forall_mem_cons.mpr ⟨parts.1, legible_shown parts.2⟩
  | .call _ _ arguments, legible => by
      have parts := List.forall_mem_cons.mp legible
      exact List.forall_mem_cons.mpr ⟨parts.1, legible_shownAll parts.2⟩
  | .list _ elements, legible =>
      List.forall_mem_cons.mpr ⟨trivial, legible_shownAll (List.forall_mem_cons.mp legible).2⟩

theorem legible_shownAll : ∀ {expressions : List Expr},
    (∀ part ∈ subtermsOfAll expressions, part.Legible {value | 0 < value.scale}) →
      ∀ part ∈ subtermsOfAll (shownAll expressions),
        part.Legible {value | value.digits ≠ 0 ∧ 0 < value.scale}
  | [], _ => nofun
  | head :: tail, legible => by
      have parts := List.forall_mem_append.mp legible
      exact List.forall_mem_append.mpr ⟨legible_shown parts.1, legible_shownAll parts.2⟩

end

/-- The text of an expression says everything about it but where it is and whether its zeros
are decimals. -/
theorem displayIn_eq_iff (data : CharacterData) {first second : Expr}
    (legible : ∀ part ∈ first.subterms, part.Legible {value | 0 < value.scale})
    (otherLegible : ∀ part ∈ second.subterms, part.Legible {value | 0 < value.scale}) :
    first.displayIn (.printing data) = second.displayIn (.printing data) ↔
      first.shown.bare = second.shown.bare := by
  constructor
  · intro same
    apply bare_eq_of_displayIn (Style.printing_clear data) (legible_shown legible)
      (legible_shown otherLegible)
    rw [displayIn_shown, same, displayIn_shown]
  · intro same
    rw [← displayIn_shown, ← displayIn_bare, same, displayIn_bare, displayIn_shown]

end Expr

end Plc
