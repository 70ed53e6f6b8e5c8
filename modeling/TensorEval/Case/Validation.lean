import TensorEval.Case.Basic
import TensorEval.Kernel.Registry
/-!
Static checks of a case: known kinds, matching counts, values that are defined before they are
used and only once, and outputs that exist.
-/
namespace TensorEval
variable {κ : Type} [Signature κ]

namespace Operation
open Signature

def checkForm (op : Operation) (kernel : κ) : Except Failure Unit :=
  if op.operands.length ≠ operandCount kernel then
    .error (.operandCount op.displayName (operandCount kernel) op.operands.length)
  else if op.results.length ≠ resultCount kernel then
    .error (.resultCount op.displayName op.results.length (resultCount kernel))
  else match (requiredAttributes kernel).find? (!op.attributes.contains ·) with
    | some required => .error (.missingAttribute op.displayName required)
    | none => .ok ()

def checkOperands (op : Operation) (defined : List String) : Except Failure Unit :=
  match op.operands.find? (· ∉ defined) with
  | some operand => .error (.operandNotReady op.displayName operand)
  | none => .ok ()

def define (op : Operation) (defined : List String) : List String → Except Failure (List String)
  | [] => .ok defined
  | name :: rest =>
    if name ∈ defined then .error (.producedTwice op.displayName name)
    else define op (name :: defined) rest

/-- The names that are defined after an operation, if it is well formed in its place. -/
def check (registry : Registry κ) (index : Nat) (defined : List String) (op : Operation) :
    Except Failure (List String) := do
  let kernel ← (registry.lookup op.kind).mapError (.atOperation index op.displayName)
  op.checkForm kernel
  op.checkOperands defined
  op.define defined op.results

end Operation

/-- The flow of values between the operations of a case. -/
structure Wiring where
  /-- The display name of the operation that binds each result. -/
  producers : Bindings String
  /-- The display names of the operations that read each value, one for each use. -/
  dependents : Bindings (List String)

namespace Case

def checkOperations (registry : Registry κ) (index : Nat) (defined : List String) :
    List Operation → Except Failure (List String)
  | [] => .ok defined
  | op :: rest => do
    let defined ← op.check registry index defined
    checkOperations registry (index + 1) defined rest

def checkOutputs (outputs defined : List String) : Except Failure Unit :=
  match outputs.find? (· ∉ defined) with
  | some output => .error (.outputNotProduced output)
  | none => .ok ()

def results (operations : List Operation) : List (String × String) :=
  operations.flatMap fun op => op.results.map fun name => (name, op.displayName)

def uses (operations : List Operation) : List (String × String) :=
  operations.flatMap fun op => op.operands.map fun name => (name, op.displayName)

def recordUse (table : Bindings (List String)) (use : String × String) : Bindings (List String) :=
  table.insert use.1 ((table.get? use.1).getD [] ++ [use.2])

def wiring (c : Case) : Wiring where
  producers := .ofList (results c.operations)
  dependents := (uses c.operations).foldl recordUse .empty

/-- The flow of values in a case that passes all checks, or the first rule that it breaks. -/
def validate (registry : Registry κ) (c : Case) : Except Failure Wiring := do
  if c.operations.isEmpty || c.outputs.isEmpty then throw .emptyCase
  let defined ← checkOperations registry 0 c.inputs.names c.operations
  checkOutputs c.outputs defined
  return c.wiring

end Case

end TensorEval
