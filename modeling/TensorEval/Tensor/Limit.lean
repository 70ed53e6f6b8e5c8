import TensorEval.Failure
/-!
The limit on the size of single tensors.
-/
namespace TensorEval

/-- The largest tensor, in bytes, unless another limit is asked for. -/
def defaultLimit : Nat := 268435456

def checkSize (limit : Nat) (shape : Shape) (type : ElementType) : Except Failure Unit :=
  match shape.byteLength type.byteWidth with
  | none => .error (.countOverflow shape)
  | some length => if limit < length then .error (.overLimit shape length limit) else .ok ()

theorem checkSize_eq_ok_iff {limit : Nat} {shape : Shape} {type : ElementType} :
    checkSize limit shape type = .ok () ↔
      ∃ length, shape.byteLength type.byteWidth = some length ∧ length ≤ limit := by
  unfold checkSize
  cases shape.byteLength type.byteWidth with
  | none => simp
  | some length =>
    by_cases h : limit < length
    · simp [h]
    · simp [h, Nat.le_of_not_lt h]

theorem checkSize_eq_error_iff {limit : Nat} {shape : Shape} {type : ElementType} {failure : Failure} :
    checkSize limit shape type = .error failure ↔
      shape.byteLength type.byteWidth = none ∧ failure = .countOverflow shape ∨
      ∃ length, shape.byteLength type.byteWidth = some length ∧ limit < length ∧
        failure = .overLimit shape length limit := by
  unfold checkSize
  cases shape.byteLength type.byteWidth with
  | none => simp [eq_comm]
  | some length =>
    by_cases h : limit < length
    · simp [h, eq_comm]
    · simp [h]

end TensorEval
