import TensorEval.Case.Basic
import TensorEval.Environment
import TensorEval.Kernel.Registry
import TensorEval.Tensor.Elementwise
import TensorEval.Tensor.Limit
/-!
Evaluation of a single operation. The environment is only read.
-/
namespace TensorEval

def Dense.uniform {α : Type} (d : Dense α) : Except Failure α :=
  match d.values with
  | .splat value => .ok value
  | .elements _ => .error (.notUniform d.shape)

namespace Kernel

def constantParts : Attribute → Except Failure (Shape × ElementType × Fill)
  | .float value type => .ok ([], type, .float value)
  | .integer value type => .ok ([], type, .integer value)
  | .denseFloat d => d.uniform.map fun value => (d.shape, d.type, .float value)
  | .denseInteger d => d.uniform.map fun value => (d.shape, d.type, .integer value)
  | value => .error (.unsupportedConstant value.kind)

def materialize (limit : Nat) (value : Attribute) : Outcome Tensor := do
  let (shape, type, fill) ← .ofExcept (constantParts value)
  .ofExcept (checkSize limit shape type)
  Tensor.full shape type fill

def checkDomain (op : Operation) (domain : Domain) (name : String) (x : Tensor) :
    Except Failure Unit :=
  if domain.accepts x.type then .ok ()
  else .error (.operandType op.displayName name x.type domain)

def commonShape (x y : Tensor) : Except Failure Shape :=
  match Shape.broadcast x.shape y.shape with
  | some shape => .ok shape
  | none => .error (.incompatibleShapes x.shape y.shape)

/-- The result of an operator on two named operands. Both names are resolved before anything is
checked of either tensor, and the size of the result before it is computed. -/
def combine (operator : Operator) (domain : Domain) (limit : Nat) (env : Environment)
    (op : Operation) (left right : String) : Except Failure Tensor := do
  let x ← env.lookup left
  let y ← env.lookup right
  checkDomain op domain left x
  checkDomain op domain right y
  let shape ← commonShape x y
  checkSize limit shape (x.resultType y)
  x.binary operator y

def constantValue (op : Operation) : Except Failure Attribute :=
  match op.attributes.get? valueName with
  | some value => .ok value
  | none => .error (.missingAttribute op.displayName valueName)

theorem constantValue_eq_ok {op : Operation} {value : Attribute} :
    constantValue op = .ok value ↔ op.attributes.get? valueName = some value := by
  unfold constantValue
  cases op.attributes.get? valueName <;> simp

def evaluate (kernel : Kernel) (limit : Nat) (env : Environment) (op : Operation) :
    Outcome (List Tensor) :=
  match kernel, op.operands with
  | constant, [] => do
    let value ← .ofExcept (constantValue op)
    let x ← materialize limit value
    return [x]
  | elementwise operator domain, [left, right] => do
    let x ← .ofExcept (combine operator domain limit env op left right)
    return [x]
  | kernel, operands =>
    .error (.failed (.operandCount op.displayName kernel.operandCount operands.length))

end Kernel

def Registry.evaluate (registry : Registry) (limit : Nat) (env : Environment) (op : Operation) :
    Outcome (List Tensor) := do
  let kernel ← .ofExcept (registry.lookup op.kind)
  kernel.evaluate limit env op

end TensorEval
