import TensorEval.Bindings
import TensorEval.Element
import TensorEval.Failure
/-!
Kernels: what operations of each kind compute, and the table of the kinds that are known.
-/
namespace TensorEval

/-- What a kernel asks of the operations that it computes. -/
class Signature (κ : Type) where
  /-- The number of operands that a kernel reads. -/
  operandCount : κ → Nat
  /-- The number of tensors that a kernel gives. -/
  resultCount : κ → Nat
  /-- The attributes that a kernel needs. -/
  requiredAttributes : κ → List String

inductive Kernel where
  /-- The tensor of an attribute. -/
  | constant
  /-- An operator on two operands of a domain, element by element. -/
  | elementwise (operator : Operator) (domain : Domain)
  deriving DecidableEq, Repr

namespace Kernel

def valueName : String := "value"

def operandCount : Kernel → Nat
  | constant => 0
  | elementwise .. => 2

def resultCount : Kernel → Nat
  | constant => 1
  | elementwise .. => 1

def requiredAttributes : Kernel → List String
  | constant => [valueName]
  | elementwise .. => []

/-- Where no other kernels are meant, a registry is one of these. -/
@[default_instance]
instance : Signature Kernel := ⟨operandCount, resultCount, requiredAttributes⟩

end Kernel

/-- The kernels of the known kinds. The checks of a case also take kernels that are known by their
signature only. -/
abbrev Registry (κ : Type := Kernel) := Bindings κ

namespace Registry

def standard : Registry := .ofList [
  ("arith.constant", .constant),
  ("arith.mulf", .elementwise .mul .float),
  ("arith.addf", .elementwise .add .float),
  ("arith.maximumf", .elementwise .max .float),
  ("arith.maxf", .elementwise .max .float),
  ("arith.minimumf", .elementwise .min .float),
  ("arith.minf", .elementwise .min .float),
  ("arith.muli", .elementwise .mul .integer),
  ("arith.addi", .elementwise .add .integer),
  ("arith.maxsi", .elementwise .max .integer),
  ("arith.minsi", .elementwise .min .integer)]

section Lookup
variable {κ : Type}

def lookup (registry : Registry κ) (kind : String) : Except Failure κ :=
  match registry.get? kind with
  | some kernel => .ok kernel
  | none => .error (.unknownKind kind registry.names)

theorem lookup_eq_ok {registry : Registry κ} {kind : String} {kernel : κ} :
    registry.lookup kind = .ok kernel ↔ registry.get? kind = some kernel := by
  unfold lookup
  cases registry.get? kind <;> simp

theorem lookup_eq_error {registry : Registry κ} {kind : String} {failure : Failure} :
    registry.lookup kind = .error failure ↔
      registry.get? kind = none ∧ failure = .unknownKind kind registry.names := by
  unfold lookup
  cases registry.get? kind <;> simp [eq_comm]

end Lookup

end Registry

end TensorEval
