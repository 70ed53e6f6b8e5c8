import TensorEval.Element
import TensorEval.Failure
/-!
Tensors: an element type, a shape and the elements in row-major order.
-/
namespace TensorEval

structure Tensor where
  type : ElementType
  shape : Shape
  /-- The elements in row-major order. -/
  elements : List (Element type)
  length_elements : elements.length = shape.size

namespace Tensor

def rank (x : Tensor) : Nat := x.shape.length

def elementCount (x : Tensor) : Nat := x.elements.length

def byteLength (x : Tensor) : Nat := x.elementCount * x.type.byteWidth

def toDoubles (x : Tensor) : List Double := x.elements.map x.type.carrier.toDouble

/-- The tensor of a shape with every element made from one value. There is no such tensor if the
storage of the shape cannot be addressed. -/
def full (shape : Shape) (type : ElementType) (fill : Fill) : Outcome Tensor :=
  if shape.Allocatable then
    .ok ⟨type, shape, List.replicate shape.size (Element.ofFill type fill), by simp⟩
  else .error (.unaddressable shape)

def zeros (shape : Shape) (type : ElementType) : Outcome Tensor :=
  full shape type (.integer 0)

/-- The tensor of a shape with the given numbers in row-major order. Messages call it `name`. -/
def ofNumbers (name : String) (shape : Shape) (type : ElementType) (numbers : List Double) :
    Except Failure Tensor :=
  match h : shape.elementCount with
  | none => .error (.countOverflow shape)
  | some expected =>
    if hl : numbers.length = expected then
      if shape.Allocatable then
        .ok ⟨type, shape, numbers.map (Element.ofNumber type), by
          simp [hl, Shape.elementCount_eq_some h]⟩
      else .error (.countOverflow shape)
    else .error (.dataLength name type expected .elements numbers.length)

def pieces {α : Type} (width : Nat) : Nat → List α → List (List α)
  | 0, _ => []
  | count + 1, xs => xs.take width :: pieces width count (xs.drop width)

private theorem length_pieces {α : Type} (width count : Nat) (xs : List α) :
    (pieces width count xs).length = count := by
  induction count generalizing xs with
  | zero => rfl
  | succ count ih => simp [pieces, ih]

def ofBytes (name : String) (shape : Shape) (type : ElementType) (bytes : List UInt8) :
    Except Failure Tensor :=
  match shape.byteLength type.byteWidth with
  | none => .error (.countOverflow shape)
  | some expected =>
    if bytes.length = expected then
      if shape.Allocatable then
        .ok ⟨type, shape, (pieces type.byteWidth shape.size bytes).map (Element.ofBytes type), by
          simp [length_pieces]⟩
      else .error (.countOverflow shape)
    else .error (.dataLength name type expected .bytes bytes.length)

def elementsAs (x : Tensor) (type : ElementType) : List (Element type) :=
  x.elements.map (Element.convert type)

/-- The tensor with every element converted, whether or not it has the type already. -/
def convert (x : Tensor) (type : ElementType) : Tensor :=
  ⟨type, x.shape, x.elementsAs type, by simp [elementsAs, x.length_elements]⟩

/-- The tensor of another type that takes up elements which have that type already. -/
def throughElements (x : Tensor) (type : ElementType) : Tensor := (x.convert type).convert type

def cast (x : Tensor) (type : ElementType) : Tensor :=
  if x.type = type then x else x.convert type

theorem type_cast (x : Tensor) (type : ElementType) : (x.cast type).type = type := by
  unfold cast
  split
  next h => exact h
  next => rfl

/-- Same type, same shape, same bits. Every NaN matches every NaN. -/
def sameBits (x y : Tensor) : Bool :=
  x.type = y.type && x.shape = y.shape &&
    (x.elements.zip y.elements).all fun (a, b) =>
      x.type.carrier.code a = y.type.carrier.code b ||
        (x.type.carrier.isNaN a && y.type.carrier.isNaN b)

def equals (x y : Tensor) : Bool :=
  if h : y.type = x.type then
    x.shape = y.shape &&
      (x.elements.zip (h ▸ y.elements)).all fun (a, b) => x.type.carrier.equals a b
  else false

end Tensor

end TensorEval
