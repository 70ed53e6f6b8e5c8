import TensorEval.ElementType
import TensorEval.Shape
import TensorEval.Float.Arithmetic
/-!
Attributes of operations: typed numbers, dense literals, strings, units, arrays and types.
-/
namespace TensorEval

inductive DenseValues (α : Type) where
  /-- Every element has this value. -/
  | splat (value : α)
  /-- One value for each element, in row-major order. -/
  | elements (values : List α)
  deriving DecidableEq

/-- A dense literal: one value or a list of values for a shape. Values keep their full precision
until they meet the element type. -/
structure Dense (α : Type) where
  shape : Shape
  type : ElementType
  values : DenseValues α
  deriving DecidableEq

def Dense.isSplat {α : Type} (d : Dense α) : Bool :=
  match d.values with
  | .splat _ => true
  | .elements _ => false

inductive Attribute where
  | float (value : Double) (type : ElementType)
  | integer (value : Int64) (type : ElementType)
  | denseFloat (literal : Dense Double)
  | denseInteger (literal : Dense Int64)
  | string (value : String)
  | unit
  | array (items : List Attribute)
  | typeName (spelling : String)

namespace Attribute

def kind : Attribute → String
  | float .. => "float"
  | integer .. => "integer"
  | denseFloat .. => "dense_float"
  | denseInteger .. => "dense_int"
  | string .. => "string"
  | unit => "unit"
  | array .. => "array"
  | typeName .. => "type"

end Attribute

def DenseValues.agree {α : Type} (same : α → α → Bool) : DenseValues α → DenseValues α → Bool
  | splat x, splat y => same x y
  | elements xs, elements ys => xs.length = ys.length && (xs.zip ys).all fun (x, y) => same x y
  | _, _ => false

def Dense.agree {α : Type} (same : α → α → Bool) (a b : Dense α) : Bool :=
  a.shape = b.shape && a.type = b.type && a.values.agree same b.values

namespace Attribute

mutual

/-- Equality that compares floating-point values as numbers: an attribute with a NaN equals
nothing, and the two zeros are equal. -/
def equals : Attribute → Attribute → Bool
  | float x s, float y t => s = t && x.equals y
  | integer m s, integer n t => s = t && m = n
  | denseFloat a, denseFloat b => a.agree FloatWord.equals b
  | denseInteger a, denseInteger b => a.agree (· = ·) b
  | string a, string b => a = b
  | unit, unit => true
  | array as, array bs => listEquals as bs
  | typeName a, typeName b => a = b
  | _, _ => false

def listEquals : List Attribute → List Attribute → Bool
  | [], [] => true
  | a :: as, b :: bs => a.equals b && listEquals as bs
  | _, _ => false

end

end Attribute

end TensorEval
