import Plc.Proofs.Value.Admits

/-! Values that are no lists. Writing and comparing them comes to an end whatever lists there are,
so operations on them always have a result, and it is again no list. -/

namespace Plc

theorem Stop.fault_ne_unfinished (error : RuntimeError) : Stop.fault error ≠ .unfinished := nofun

namespace Value

def IsScalar (value : Value) : Prop := value.kind ≠ .list

theorem isScalar_nil : Value.nil.IsScalar := nofun

theorem isScalar_boolean (value : Bool) : (Value.boolean value).IsScalar := nofun

theorem isScalar_string (value : String) : (Value.string value).IsScalar := nofun

variable {left right value : Value}

theorem isScalar_of_isNumber (isNumber : value.isNumber = true) : value.IsScalar := by
  intro isList
  cases value with
  | list id => cases isNumber
  | _ => cases isList

theorem IsScalar.pieces? (scalar : value.IsScalar) (lists : Lists) :
    ∃ pieces, value.pieces? lists = some pieces := by
  cases value with
  | list id => exact absurd rfl scalar
  | _ => exact ⟨_, by simp [Value.pieces?, piecesUpTo]; rfl⟩

theorem IsScalar.equal? (scalar : left.IsScalar) (lists : Lists) (right : Value) :
    ∃ same, Value.equal? lists left right = some same := by
  cases left with
  | list id => exact absurd rfl scalar
  | _ => cases right <;> exact ⟨_, by simp [Value.equal?, equalUpTo]; rfl⟩

theorem IsScalar.concatenate? (leftScalar : left.IsScalar) (rightScalar : right.IsScalar)
    (lists : Lists) : ∃ joined, Value.concatenate? lists left right = some joined := by
  rcases leftScalar.pieces? lists with ⟨leftPieces, first⟩
  rcases rightScalar.pieces? lists with ⟨rightPieces, second⟩
  simp [Value.concatenate?, display?, first, second]

theorem Combines.isScalar {operator : Operator} (combines : Combines left right operator value) :
    value.IsScalar := by
  cases combines with
  | decides _ => exact isScalar_boolean _
  | joins _ => exact isScalar_string _
  | computes _ isNumber _ kind =>
      rw [IsScalar, kind]
      exact isScalar_of_isNumber isNumber
  | raises isNumber kind =>
      rcases kind with kind | kind
      · rw [IsScalar, kind]
        exact isScalar_of_isNumber isNumber
      · rw [IsScalar, kind]
        exact Kind.noConfusion

theorem IsScalar.operate (leftScalar : left.IsScalar) (rightScalar : right.IsScalar)
    (lists : Lists) (operator : Operator) :
    left.operate lists operator right ≠ .error .unfinished := by
  have checked : ∀ result : Except RuntimeError Value,
      result.mapError Stop.fault ≠ .error .unfinished := by
    intro result unfinished
    cases result <;> cases unfinished
  rcases leftScalar.equal? lists right with ⟨same, compared⟩
  cases operator with
  | equal | notEqual => simp [Value.operate, compared, finished]
  | add =>
      rcases leftScalar.concatenate? rightScalar lists with ⟨joined, text⟩
      rw [Value.operate]
      dsimp only
      split
      · simp [text, finished]
      · exact checked _
  | _ => exact checked _

end Value

end Plc
