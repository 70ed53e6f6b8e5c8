import TensorEval.Case.Validation
import TensorEval.Case.Writer
import TensorEval.Proofs.Attribute.RoundTrip
import TensorEval.Proofs.Bindings
import TensorEval.Run.Basic

/-! The canonical form of a case: every attribute is as its text says. Neither the text nor the checks nor a run tells a
case from its canonical form, since integers of type `i1` become the same truth values. -/
namespace TensorEval

/-- A fill value as the text of an attribute of the given type has it. -/
def Fill.canonical (type : ElementType) : Fill → Fill
  | float x => float x
  | integer n => integer (Attribute.canonicalInteger type n)

private theorem Element.ofFill_canonical (type : ElementType) (fill : Fill) :
    ofFill type (fill.canonical type) = ofFill type fill := by
  cases fill with
  | float x => rfl
  | integer n => exact Attribute.ofInteger_canonicalInteger type n

private theorem Tensor.full_canonical (shape : Shape) (type : ElementType) (fill : Fill) :
    full shape type (fill.canonical type) = full shape type fill := by
  simp only [full, Element.ofFill_canonical]

namespace Kernel

private theorem constantParts_canonical (a : Attribute) :
    constantParts a.canonical =
      (constantParts a).map fun parts => (parts.1, parts.2.1, parts.2.2.canonical parts.2.1) := by
  cases a with
  | float x type => rfl
  | integer n type => rfl
  | denseFloat d =>
    obtain ⟨shape, type, values⟩ := d
    cases values <;> rfl
  | denseInteger d =>
    obtain ⟨shape, type, values⟩ := d
    cases values <;> rfl
  | string value => rfl
  | unit => rfl
  | array items => rfl
  | typeName spelling => rfl

private theorem materialize_canonical (limit : Nat) (a : Attribute) :
    materialize limit a.canonical = materialize limit a := by
  unfold materialize
  rw [constantParts_canonical]
  cases constantParts a with
  | error failure => rfl
  | ok parts =>
    obtain ⟨shape, type, fill⟩ := parts
    exact congrArg (Outcome.ofExcept (checkSize limit shape type) >>= ·)
      (funext fun _ => Tensor.full_canonical shape type fill)

end Kernel

namespace Operation

def canonical (op : Operation) : Operation := { op with attributes := op.attributes.map Attribute.canonical }

private theorem displayName_canonical (op : Operation) : op.canonical.displayName = op.displayName := rfl

private theorem json_canonical (op : Operation) : op.canonical.json = op.json := by
  have htext (a : Attribute) : a.canonical.toString = a.toString := congrArg String.ofList (Attribute.text_canonical a)
  have hattributes : (op.attributes.map Attribute.canonical).json (fun value => .string value.toString) =
      op.attributes.json fun value => .string value.toString := by
    simp only [Bindings.json, Bindings.map, List.map_map, Function.comp_def, htext]
  simp only [json, canonical, hattributes]

private theorem contains_canonical (op : Operation) (name : String) :
    op.canonical.attributes.contains name = op.attributes.contains name := by
  rw [Bindings.contains, canonical, Bindings.get?_map, Option.isSome_map]
  rfl

private theorem checkForm_canonical (op : Operation) (kernel : Kernel) :
    op.canonical.checkForm kernel = op.checkForm kernel := by
  simp only [checkForm, contains_canonical]
  rfl

private theorem define_canonical (op : Operation) (defined names : List String) :
    op.canonical.define defined names = op.define defined names := by
  induction names generalizing defined with
  | nil => rfl
  | cons name rest ih => rw [define, define, ih, displayName_canonical]

private theorem check_canonical (registry : Registry) (index : Nat) (defined : List String) (op : Operation) :
    op.canonical.check registry index defined = op.check registry index defined := by
  simp only [check, checkForm_canonical, define_canonical]
  rfl

private theorem constantValue_canonical (op : Operation) :
    Kernel.constantValue op.canonical = (Kernel.constantValue op).map Attribute.canonical := by
  unfold Kernel.constantValue
  rw [canonical, Bindings.get?_map]
  cases op.attributes.get? Kernel.valueName <;> rfl

private theorem evaluate_canonical (kernel : Kernel) (limit : Nat) (env : Environment) (op : Operation) :
    kernel.evaluate limit env op.canonical = kernel.evaluate limit env op := by
  have hoperands : op.canonical.operands = op.operands := rfl
  unfold Kernel.evaluate
  rw [hoperands]
  split
  · rw [constantValue_canonical]
    cases Kernel.constantValue op with
    | error failure => rfl
    | ok value => exact congrArg (· >>= fun x => pure [x]) (Kernel.materialize_canonical limit value)
  · rfl
  · rfl

end Operation

namespace Case

def canonical (c : Case) : Case := { c with operations := c.operations.map Operation.canonical }

theorem toText_canonical (c : Case) : c.canonical.toText = c.toText := by
  have hoperations : (c.operations.map Operation.canonical).map Operation.json = c.operations.map Operation.json := by
    rw [List.map_map]
    exact List.map_congr_left fun op _ => op.json_canonical
  simp only [toText, json, canonical, hoperations]

private theorem checkOperations_canonical (registry : Registry) (index : Nat) (defined : List String)
    (operations : List Operation) :
    checkOperations registry index defined (operations.map Operation.canonical) =
      checkOperations registry index defined operations := by
  induction operations generalizing index defined with
  | nil => rfl
  | cons op rest ih => simp only [List.map_cons, checkOperations, Operation.check_canonical, ih]

/-- The checks do not look at attributes beyond their names. -/
theorem validate_canonical (registry : Registry) (c : Case) : c.canonical.validate registry = c.validate registry := by
  have hempty : (c.operations.map Operation.canonical).isEmpty = c.operations.isEmpty := by
    cases c.operations <;> rfl
  have hwiring : c.canonical.wiring = c.wiring := by
    simp only [wiring, results, uses, canonical, List.flatMap_map, Operation.displayName_canonical]
    rfl
  simp only [validate, hwiring]
  simp only [canonical, hempty, checkOperations_canonical]

end Case

namespace Evaluator
variable {e : Evaluator}

private theorem stepResults_canonical (index : Nat) (env : Environment) (op : Operation) :
    e.stepResults index env op.canonical = e.stepResults index env op := by
  have hevaluate : e.registry.evaluate e.limit env op.canonical = e.registry.evaluate e.limit env op := by
    simp only [Registry.evaluate, Operation.evaluate_canonical]
    rfl
  simp only [stepResults, results, hevaluate]
  rfl

private theorem steps_canonical (index : Nat) (env : Environment) (operations : List Operation) :
    e.steps index env (operations.map Operation.canonical) = e.steps index env operations := by
  induction operations generalizing index env with
  | nil => rfl
  | cons op rest ih =>
    simp only [List.map_cons, steps, stepResults_canonical, ih]
    rfl

/-- A case and its canonical form have the same run. -/
theorem run_canonical (e : Evaluator) (c : Case) : e.run c.canonical = e.run c := by
  simp only [run, Case.canonical, steps_canonical]
  rfl

end Evaluator

end TensorEval
