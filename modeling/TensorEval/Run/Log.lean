import TensorEval.Run.Basic
import TensorEval.Run.LogLevel
import TensorEval.Tensor.Text
/-!
The log of a run: a line for each value that is bound, up to the first failure.
-/
namespace TensorEval.Evaluator

def inputLine (name : String) (x : Tensor) : String := s!"[DEBUG] input `{name}`: {x.typeText}"

def startLine (operations inputs : Nat) : String :=
  s!"[DEBUG] running {operations} operations over {inputs} inputs"

def resultLines (level : LogLevel) (index : Nat) (kind name : String) (x : Tensor) : List String :=
  let line := s!"[DEBUG] #{index} {kind} -> `{name}`: {x.typeText}"
  match level with
  | .elements => [line, s!"  values: {x.valuesText}"]
  | _ => [line]

def logInputs (e : Evaluator) : List (String × Input) → List String
  | [] => []
  | (name, input) :: rest =>
    match e.inputTensor name input with
    | .ok x => inputLine name x :: e.logInputs rest
    | .error _ => []

def logSteps (e : Evaluator) (level : LogLevel) (index : Nat) (env : Environment) :
    List Operation → List String
  | [] => []
  | op :: rest =>
    match e.stepResults index env op with
    | .ok tensors =>
      ((op.results.zip tensors).flatMap fun (name, x) => resultLines level index op.kind name x) ++
        e.logSteps level (index + 1) (bind env op.results tensors) rest
    | .error _ => []

def log (e : Evaluator) (level : LogLevel) (c : Case) : List String :=
  if level = .off then []
  else e.logInputs c.inputs.entries ++
    match e.seed c with
    | .ok env => startLine c.operations.length env.size :: e.logSteps level 0 env c.operations
    | .error _ => []

end TensorEval.Evaluator
