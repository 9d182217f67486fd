import Plc.Proofs.Machine.Order

/-! The creation of cells. Each cell of a run has exactly one moment that creates it:
the parts of a moment share no cells, and going from parts to parts comes to an end. -/

namespace Plc.Moment

/-! ## Cells and their moments -/

theorem Includes.bounds {whole inner : Moment} (includes : whole.Includes inner) :
    whole.machine.cells.size ≤ inner.machine.cells.size ∧
      inner.after.cells.size ≤ whole.after.cells.size := by
  induction includes with
  | self moment => exact ⟨Nat.le_refl _, Nat.le_refl _⟩
  | @inside whole part inner member includes induction =>
      have within := (sequential_of_mem member).bounds member
      exact ⟨Nat.le_trans within.1 induction.1, Nat.le_trans induction.2 within.2⟩

section

variable {moment : Moment} {declaration : Declaration} {cell : Nat}

theorem Creates.parts_eq_nil (creates : moment.Creates declaration cell) :
    moment.parts = [] := by
  rcases creates with ⟨position, name, isMutable, value, defines, _⟩
  exact parts_of_define defines

theorem Creates.within (creates : moment.Creates declaration cell) :
    cell = moment.machine.cells.size ∧ cell < moment.after.cells.size := by
  rcases creates with ⟨_, _, _, _, _, within⟩
  exact within

theorem creates_of_define {position : Nat} {name : String} {isMutable : Bool} {value : Value}
    (defines : moment.activity = .define declaration position name isMutable value)
    (notBefore : moment.machine.cells.size ≤ cell) (before : cell < moment.after.cells.size) :
    moment.Creates declaration cell := by
  refine ⟨position, name, isMutable, value, defines, ?_, before⟩
  rcases moment with ⟨bound, activity, machine⟩
  cases defines
  have grown : (machine.defineVariable position name .any isMutable value).2.cells.size ≤
      machine.cells.size + 1 := by
    rcases machine.defineVariable_cases position name .any isMutable value with
      ⟨_, same⟩ | ⟨_, extended, _, defined⟩
    · rw [same]
      exact Nat.le_succ _
    · rw [defined]
      simp
  exact Nat.le_antisymm (Nat.le_of_lt_succ (Nat.lt_of_lt_of_le before grown)) notBefore

end

/-- No two moments of a run create the same cell. -/
theorem Includes.creates_unique {whole left right : Moment} {leftDeclaration : Declaration}
    {rightDeclaration : Declaration} {cell : Nat} (leftIncluded : whole.Includes left)
    (rightIncluded : whole.Includes right) (leftCreates : left.Creates leftDeclaration cell)
    (rightCreates : right.Creates rightDeclaration cell) : left = right := by
  induction leftIncluded with
  | self moment =>
      cases rightIncluded with
      | self => rfl
      | inside member _ =>
          rw [leftCreates.parts_eq_nil] at member
          cases member
  | @inside whole leftPart left leftMember leftIncluded induction =>
      cases rightIncluded with
      | self =>
          rw [rightCreates.parts_eq_nil] at leftMember
          cases leftMember
      | @inside _ rightPart _ rightMember rightIncluded =>
          have leftWithin := leftCreates.within
          have rightWithin := rightCreates.within
          have leftBounds := leftIncluded.bounds
          have rightBounds := rightIncluded.bounds
          -- parts that are apart share no cell
          rcases (sequential_of_mem leftMember).apart leftMember rightMember with
            same | before | after
          · subst same
            exact induction rightIncluded leftCreates
          · omega
          · omega

/-- Every cell that is new at the end of a moment has a moment in it that creates it. -/
theorem exists_creates (moment : Moment) {cell : Nat}
    (notBefore : moment.machine.cells.size ≤ cell) (before : cell < moment.after.cells.size) :
    ∃ inner declaration, moment.Includes inner ∧ inner.Creates declaration cell := by
  induction moment using induction_on_parts with
  | step whole induction =>
      rcases whole.parts_sequential with ⟨declaration, _, _, _, _, defines⟩ | sequential
      · exact ⟨whole, declaration, .self whole, creates_of_define defines notBefore before⟩
      · rcases sequential.covers notBefore before with ⟨part, member, start, finish⟩
        rcases induction part member start finish with ⟨inner, declaration, includes, creates⟩
        exact ⟨inner, declaration, .inside member includes, creates⟩

end Plc.Moment
