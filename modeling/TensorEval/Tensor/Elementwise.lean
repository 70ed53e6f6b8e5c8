import TensorEval.Tensor.Basic
/-!
Elementwise operators on two tensors, with promotion to a common type and broadcasting to a common
shape.
-/
namespace TensorEval.Tensor

/-- The element type of a result. An operand of rank zero takes part only if its category is
stronger than that of an operand with dimensions. -/
def resultType (x y : Tensor) : ElementType :=
  if x.rank = 0 ∧ y.rank ≠ 0 ∧ x.type.category ≤ y.type.category then y.type
  else if x.rank ≠ 0 ∧ y.rank = 0 ∧ y.type.category ≤ x.type.category then x.type
  else x.type.promote y.type

/-- The element of row-major position `k` of the broadcast shape `s`, for an operand of shape `a`
with the given elements. -/
def broadcastElement {type : ElementType} (s a : Shape) (elements : Array (Element type))
    (k : Nat) : Element type :=
  elements[Shape.project s a k]?.getD (Element.zero type)

/-- The operator applied at every position of the common shape, in the common type. The left operand
is taken as it is if it has that type already. -/
def binary (op : Operator) (x y : Tensor) : Except Failure Tensor :=
  match Shape.broadcast x.shape y.shape with
  | none => .error (.incompatibleShapes x.shape y.shape)
  | some shape =>
    if shape.Allocatable then
      let left := x.cast (resultType x y)
      let lefts := left.elements.toArray
      let rights := (y.elementsAs left.type).toArray
      .ok ⟨left.type, shape,
        (List.range shape.size).map fun k =>
          left.type.carrier.combine op
            (broadcastElement shape x.shape lefts k) (broadcastElement shape y.shape rights k),
        by simp⟩
    else .error (.incompatibleShapes x.shape y.shape)

end TensorEval.Tensor
