import TensorEval.Attribute.Basic
import TensorEval.Bindings
import TensorEval.Tensor.Basic
/-!
Benchmark cases: declared inputs, operations in evaluation order, and the names of the outputs.
-/
namespace TensorEval

/-- A declared input tensor: its elements as numbers or as little-endian bytes. With neither it is
zero everywhere, and both together are refused. -/
structure Input where
  type : ElementType
  shape : Shape
  values : Option (List Double)
  data : Option (List UInt8)

namespace Input

def elementCount (input : Input) : Option Nat := Shape.elementCount input.shape

def byteLength (input : Input) : Option Nat := Shape.byteLength input.shape input.type.byteWidth

def tensor (name : String) (input : Input) : Outcome Tensor :=
  match input.values, input.data with
  | some values, none => .ofExcept (Tensor.ofNumbers name input.shape input.type values)
  | none, some bytes => .ofExcept (Tensor.ofBytes name input.shape input.type bytes)
  | none, none =>
    match input.elementCount with
    | none => .error (.failed (.countOverflow input.shape))
    | some _ => Tensor.zeros input.shape input.type
  | some _, some _ => .error (.failed (.ambiguousData name))

end Input

structure Operation where
  kind : String
  operands : List String
  results : List String
  attributes : Bindings Attribute
  label : Option String

def Operation.displayName (op : Operation) : String := op.label.getD op.kind

structure Case where
  inputs : Bindings Input
  /-- The operations in the order of evaluation. -/
  operations : List Operation
  /-- The names whose values are reported, in order. -/
  outputs : List String

end TensorEval
