import TensorEval.Float.Text
import TensorEval.Json.Writer
import TensorEval.Tensor.Basic
/-!
Tensors as text and as JSON.
-/
namespace TensorEval

def Carrier.json : (c : Carrier) → c.Value → Json
  | .flag, b => .boolean b
  | .signed _, n => .integer n.toInt
  | .floating _, x => .float x.widen

def listedDoubles (xs : List Double) : String :=
  "[" ++ ", ".intercalate (xs.map fun x => String.ofList (DecimalStyle.display.text x)) ++ "]"

namespace Tensor

def jsonValues (x : Tensor) : List Json := x.elements.map x.type.carrier.json

def valuesText (x : Tensor) : String := listedDoubles x.toDoubles

def typeText (x : Tensor) : String := s!"{x.type.name} {x.shape.text}"

end Tensor

end TensorEval
