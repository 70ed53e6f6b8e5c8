import TensorEval.Kernel.Evaluate
/-!
Running a case: its inputs are bound, its operations are evaluated in order, and its outputs are
collected.
-/
namespace TensorEval

/-- What a run goes by: the known kinds and the limit on tensors in bytes. -/
structure Evaluator where
  registry : Registry
  limit : Nat

structure Run where
  /-- The outputs in the order in which the case lists them. -/
  outputs : List (String × Tensor)
  /-- Every value that was bound, inputs included. -/
  environment : Environment

namespace Evaluator

def standard (limit : Nat) : Evaluator := ⟨.standard, limit⟩

def inputTensor (e : Evaluator) (name : String) (input : Input) : Outcome Tensor := do
  .ofExcept (checkSize e.limit input.shape input.type)
  input.tensor name

def bindInputs (e : Evaluator) (env : Environment) : List (String × Input) → Outcome Environment
  | [] => .ok env
  | (name, input) :: rest => do
    let x ← e.inputTensor name input
    e.bindInputs (env.insert name x) rest

def seed (e : Evaluator) (c : Case) : Outcome Environment := e.bindInputs .empty c.inputs.entries

/-- The results of an operation, as many as it declares. -/
def results (e : Evaluator) (env : Environment) (op : Operation) : Outcome (List Tensor) := do
  let tensors ← e.registry.evaluate e.limit env op
  if tensors.length = op.results.length then return tensors
  else throw (.failed (.resultCount op.displayName op.results.length tensors.length))

def bind (env : Environment) (names : List String) (tensors : List Tensor) : Environment :=
  (names.zip tensors).foldl (fun env (name, x) => env.insert name x) env

def stepResults (e : Evaluator) (index : Nat) (env : Environment) (op : Operation) :
    Outcome (List Tensor) :=
  (e.results env op).atOperation index op.displayName

/-- The environment after some operations, the first of them at `index`. -/
def steps (e : Evaluator) (index : Nat) (env : Environment) :
    List Operation → Outcome Environment
  | [] => .ok env
  | op :: rest => do
    let tensors ← e.stepResults index env op
    e.steps (index + 1) (bind env op.results tensors) rest

def collect (env : Environment) (outputs : List String) : Except Failure (List (String × Tensor)) :=
  outputs.mapM fun name =>
    match env.get? name with
    | some x => .ok (name, x)
    | none => .error (.outputNotProduced name)

/-- The run of a case. It does not take a validated case. -/
def run (e : Evaluator) (c : Case) : Outcome Run := do
  let env ← e.seed c
  let env ← e.steps 0 env c.operations
  let outputs ← .ofExcept (collect env c.outputs)
  return ⟨outputs, env⟩

end Evaluator

end TensorEval
