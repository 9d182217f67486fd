import Plc.Proofs.Machine.Scopes
import Plc.Proofs.Machine.Timeline

/-! The order of the moments of a run. Cells are never given up, and only what
defines a variable adds one, so the number of cells tells when a moment takes
place. -/

namespace Plc.Moment

/-! ## The number of cells -/

theorem Changes.cells_eq {moment : Moment} {before after : Machine}
    (changes : moment.Changes before after)
    (notDefine : ∀ declaration position name isMutable value,
      moment.activity ≠ .define declaration position name isMutable value) :
    after.cells.size = before.cells.size := by
  induction changes with
  | refl => rfl
  | tail _ change induction => exact (change.cells_eq notDefine).trans induction

private theorem more_cells : Rules (fun _ => True) (fun _ => True)
    (fun earlier later => earlier.cells.size ≤ later.cells.size) where
  refl _ := Nat.le_refl _
  trans := Nat.le_trans
  begins _ _ _ _ _ _ := trivial
  change _ _ _ _ change := ⟨trivial, change.cells_le⟩

theorem grows (moment : Moment) : moment.machine.cells.size ≤ moment.after.cells.size :=
  (more_cells.obeys moment trivial trivial).course.across

/-! ## The order of the parts

Cells are never given up, and only the parts of a moment add any, so the number of
cells tells when a moment takes place: the parts of a moment follow one another from
its start to its end. -/

/-- The moments come one after the other, while the number of cells grows from
`low` to `high`. -/
def Sequential (low : Nat) : List Moment → Nat → Prop
  | [], high => low = high
  | part :: rest, high =>
      part.machine.cells.size = low ∧ low ≤ part.after.cells.size ∧
        Sequential part.after.cells.size rest high

namespace Sequential

variable {low high : Nat} {moments : List Moment}

theorem low_le_high (sequential : Sequential low moments high) : low ≤ high := by
  induction moments generalizing low with
  | nil => exact Nat.le_of_eq sequential
  | cons part rest induction =>
      exact Nat.le_trans sequential.2.1 (induction sequential.2.2)

theorem bounds (sequential : Sequential low moments high) {part : Moment}
    (member : part ∈ moments) :
    low ≤ part.machine.cells.size ∧ part.after.cells.size ≤ high := by
  induction moments generalizing low with
  | nil => cases member
  | cons head tail induction =>
      rcases List.mem_cons.mp member with rfl | member
      · exact ⟨Nat.le_of_eq sequential.1.symm, sequential.2.2.low_le_high⟩
      · have later := induction sequential.2.2 member
        exact ⟨Nat.le_trans sequential.2.1 later.1, later.2⟩

theorem apart (sequential : Sequential low moments high) {left right : Moment}
    (leftMember : left ∈ moments) (rightMember : right ∈ moments) :
    left = right ∨ left.after.cells.size ≤ right.machine.cells.size ∨
      right.after.cells.size ≤ left.machine.cells.size := by
  induction moments generalizing low with
  | nil => cases leftMember
  | cons head tail induction =>
      rcases List.mem_cons.mp leftMember with leftHead | leftTail
      · rcases List.mem_cons.mp rightMember with rightHead | rightTail
        · exact .inl (leftHead.trans rightHead.symm)
        · subst leftHead
          exact .inr (.inl (sequential.2.2.bounds rightTail).1)
      · rcases List.mem_cons.mp rightMember with rightHead | rightTail
        · subst rightHead
          exact .inr (.inr (sequential.2.2.bounds leftTail).1)
        · exact induction sequential.2.2 leftTail rightTail

theorem covers (sequential : Sequential low moments high) {number : Nat}
    (notBefore : low ≤ number) (before : number < high) :
    ∃ part ∈ moments, part.machine.cells.size ≤ number ∧ number < part.after.cells.size := by
  induction moments generalizing low with
  | nil =>
      have equal : low = high := sequential
      omega
  | cons head tail induction =>
      by_cases inHead : number < head.after.cells.size
      · exact ⟨head, List.mem_cons_self, sequential.1 ▸ notBefore, inHead⟩
      · rcases induction sequential.2.2 (Nat.le_of_not_lt inHead) with ⟨part, member, within⟩
        exact ⟨part, List.mem_cons_of_mem _ member, within⟩

end Sequential

/-- Moments that are linked are in order, if nothing but them defines a variable. -/
theorem Linked.sequential {whole : Moment} {machine last : Machine} {moments : List Moment}
    (linked : whole.Linked machine moments last)
    (notDefine : ∀ declaration position name isMutable value,
      whole.activity ≠ .define declaration position name isMutable value) :
    Sequential machine.cells.size moments last.cells.size := by
  induction moments generalizing machine with
  | nil => exact (Changes.cells_eq linked notDefine).symm
  | cons part rest induction =>
      have same := Changes.cells_eq linked.1 notDefine
      exact ⟨same, same ▸ part.grows, induction linked.2.2⟩

/-- The parts of a moment follow one another from its start to its end, unless it
defines a variable. -/
theorem parts_sequential (moment : Moment) :
    (∃ declaration position name isMutable value,
      moment.activity = .define declaration position name isMutable value) ∨
    Sequential moment.machine.cells.size moment.parts moment.after.cells.size := by
  by_cases defines : ∃ declaration position name isMutable value,
      moment.activity = .define declaration position name isMutable value
  · exact .inl defines
  · refine .inr (moment.parts_linked.sequential ?_)
    intro declaration position name isMutable value activity
    exact defines ⟨declaration, position, name, isMutable, value, activity⟩

theorem sequential_of_mem {whole part : Moment} (member : part ∈ whole.parts) :
    Sequential whole.machine.cells.size whole.parts whole.after.cells.size := by
  rcases whole.parts_sequential with ⟨_, _, _, _, _, defines⟩ | sequential
  · rw [parts_of_define defines] at member
    cases member
  · exact sequential

end Plc.Moment
