import TensorEval.Bindings
import TensorEval.Tensor.Basic
/-!
The named tensors that operations read.
-/
namespace TensorEval

abbrev Environment := Bindings Tensor

def Environment.lookup (env : Environment) (name : String) : Except Failure Tensor :=
  match env.get? name with
  | some x => .ok x
  | none => .error (.missingOperand name)

theorem Environment.lookup_eq_ok {env : Environment} {name : String} {x : Tensor} :
    env.lookup name = .ok x ↔ env.get? name = some x := by
  unfold lookup
  cases env.get? name <;> simp

theorem Environment.lookup_eq_error {env : Environment} {name : String} {failure : Failure} :
    env.lookup name = .error failure ↔ env.get? name = none ∧ failure = .missingOperand name := by
  unfold lookup
  cases env.get? name <;> simp [eq_comm]

end TensorEval
