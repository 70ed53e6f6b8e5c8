import TensorEval.Proofs.Run.Environment
import TensorEval.Proofs.Tensor.Storage

/-! Runs that end without storage: exactly those that come to an input without data, or to a constant,
whose shape passes the size check only because a zero dimension hides an overflow. -/
namespace TensorEval

namespace Input

/-- Only an input without data can lack storage; the element count of one with data is checked against
the storage, too. -/
private theorem tensor_eq_unaddressable {name : String} {input : Input} {s : Shape} :
    input.tensor name = .error (.unaddressable s) ↔
      input.values = none ∧ input.data = none ∧ (∃ n, input.elementCount = some n) ∧
        ¬ input.shape.Allocatable ∧ input.shape = s := by
  unfold tensor
  split
  · rename_i values hvalues hdata
    simpa [hvalues] using Outcome.ofExcept_ne_unaddressable _ s
  · rename_i bytes hvalues hdata
    simpa [hdata] using Outcome.ofExcept_ne_unaddressable _ s
  · rename_i hvalues hdata
    cases hcount : input.elementCount with
    | none => simp
    | some n => simp [hvalues, hdata, Tensor.zeros, Tensor.full_eq_unaddressable]
  · rename_i hvalues hdata
    simp [hvalues]

end Input

namespace Evaluator
variable {e : Evaluator}

/-- The input has no data, and its shape is within the limit only through an overflow that it hides. -/
def InputLacksStorage (input : Input) : Prop :=
  input.values = none ∧ input.data = none ∧ input.shape.HidesOverflow

/-- The operation is a constant whose shape is within the limit only through an overflow that it hides. -/
def ConstantLacksStorage (registry : Registry) (op : Operation) : Prop :=
  registry.get? op.kind = some .constant ∧ op.operands = [] ∧
    ∃ value shape type fill, op.attributes.get? Kernel.valueName = some value ∧
      Kernel.constantParts value = .ok (shape, type, fill) ∧ Shape.HidesOverflow shape

private theorem elementCount_of_hidesOverflow {s : Shape} (h : s.HidesOverflow) : s.elementCount = some 0 :=
  Shape.elementCount_eq_zero_iff.mpr h.1

private theorem checkSize_of_hidesOverflow {s : Shape} (h : s.HidesOverflow) (limit : Nat) (type : ElementType) :
    checkSize limit s type = .ok () := by
  refine checkSize_eq_ok_iff.mpr ⟨0, ?_, Nat.zero_le _⟩
  refine Option.bind_eq_some_iff.mpr ⟨0, elementCount_of_hidesOverflow h, ?_⟩
  rw [checkedMul, Nat.zero_mul, if_pos (by decide)]

private theorem inputTensor_eq_unaddressable (hlimit : e.limit < signedBound) (name : String) {input : Input} :
    (∃ s, e.inputTensor name input = .error (.unaddressable s)) ↔ InputLacksStorage input := by
  constructor
  · rintro ⟨s, h⟩
    rcases except_bind_eq_error.mp h with h | ⟨_, hsize, h⟩
    · exact absurd h (Outcome.ofExcept_ne_unaddressable _ s)
    · obtain ⟨hvalues, hdata, -, hstorage, -⟩ := Input.tensor_eq_unaddressable.mp h
      exact ⟨hvalues, hdata, (Shape.not_allocatable_iff hlimit (Outcome.ofExcept_eq_ok.mp hsize)).mp hstorage⟩
  · rintro ⟨hvalues, hdata, hhides⟩
    have hsize := checkSize_of_hidesOverflow hhides e.limit input.type
    refine ⟨input.shape, except_bind_eq_error.mpr (.inr ⟨(), Outcome.ofExcept_eq_ok.mpr hsize, ?_⟩)⟩
    exact Input.tensor_eq_unaddressable.mpr ⟨hvalues, hdata, ⟨0, elementCount_of_hidesOverflow hhides⟩,
      (Shape.not_allocatable_iff hlimit hsize).mpr hhides, rfl⟩

private theorem materialize_eq_unaddressable {limit : Nat} (hlimit : limit < signedBound) {value : Attribute} :
    (∃ s, Kernel.materialize limit value = .error (.unaddressable s)) ↔
      ∃ shape type fill, Kernel.constantParts value = .ok (shape, type, fill) ∧ Shape.HidesOverflow shape := by
  constructor
  · rintro ⟨s, h⟩
    rcases except_bind_eq_error.mp h with h | ⟨⟨shape, type, fill⟩, hparts, h⟩
    · exact absurd h (Outcome.ofExcept_ne_unaddressable _ s)
    rcases except_bind_eq_error.mp h with h | ⟨_, hsize, h⟩
    · exact absurd h (Outcome.ofExcept_ne_unaddressable _ s)
    have hstorage := (Tensor.full_eq_unaddressable.mp h).1
    exact ⟨shape, type, fill, Outcome.ofExcept_eq_ok.mp hparts,
      (Shape.not_allocatable_iff hlimit (Outcome.ofExcept_eq_ok.mp hsize)).mp hstorage⟩
  · rintro ⟨shape, type, fill, hparts, hhides⟩
    have hsize := checkSize_of_hidesOverflow hhides limit type
    refine ⟨shape, except_bind_eq_error.mpr (.inr ⟨(shape, type, fill), Outcome.ofExcept_eq_ok.mpr hparts, ?_⟩)⟩
    refine except_bind_eq_error.mpr (.inr ⟨(), Outcome.ofExcept_eq_ok.mpr hsize, ?_⟩)
    exact Tensor.full_eq_unaddressable.mpr ⟨(Shape.not_allocatable_iff hlimit hsize).mpr hhides, rfl⟩

/-- The elementwise kernels check the storage of their result, so only constants can lack it. -/
private theorem evaluate_eq_unaddressable {registry : Registry} {limit : Nat} (hlimit : limit < signedBound)
    (env : Environment) {op : Operation} :
    (∃ s, registry.evaluate limit env op = .error (.unaddressable s)) ↔ ConstantLacksStorage registry op := by
  constructor
  · rintro ⟨s, h⟩
    rcases except_bind_eq_error.mp h with h | ⟨kernel, hkernel, h⟩
    · exact absurd h (Outcome.ofExcept_ne_unaddressable _ s)
    rw [Outcome.ofExcept_eq_ok, Registry.lookup_eq_ok] at hkernel
    unfold Kernel.evaluate at h
    split at h
    · rename_i hoperands
      rcases except_bind_eq_error.mp h with h | ⟨value, hvalue, h⟩
      · exact absurd h (Outcome.ofExcept_ne_unaddressable _ s)
      rcases except_bind_eq_error.mp h with h | ⟨x, -, h⟩
      · obtain ⟨shape, type, fill, hparts, hhides⟩ := (materialize_eq_unaddressable hlimit).mp ⟨s, h⟩
        exact ⟨hkernel, hoperands, value, shape, type, fill, Kernel.constantValue_eq_ok.mp (Outcome.ofExcept_eq_ok.mp hvalue),
          hparts, hhides⟩
      · simp at h
    · rcases except_bind_eq_error.mp h with h | ⟨x, -, h⟩
      · exact absurd h (Outcome.ofExcept_ne_unaddressable _ s)
      · simp at h
    · simp at h
  · rintro ⟨hkernel, hoperands, value, shape, type, fill, hvalue, hparts, hhides⟩
    obtain ⟨s, hs⟩ := (materialize_eq_unaddressable hlimit).mpr ⟨shape, type, fill, hparts, hhides⟩
    refine ⟨s, except_bind_eq_error.mpr (.inr ⟨.constant, ?_, ?_⟩)⟩
    · rw [Outcome.ofExcept_eq_ok, Registry.lookup_eq_ok, hkernel]
    · simp only [Kernel.evaluate, hoperands, Kernel.constantValue_eq_ok.mpr hvalue, Outcome.ofExcept_ok, except_ok_bind, hs,
        except_error_bind]

theorem stepResults_eq_unaddressable (hlimit : e.limit < signedBound) (index : Nat) (env : Environment)
    {op : Operation} :
    (∃ s, e.stepResults index env op = .error (.unaddressable s)) ↔ ConstantLacksStorage e.registry op := by
  rw [← evaluate_eq_unaddressable hlimit env]
  refine exists_congr fun s => ?_
  rw [stepResults, Outcome.atOperation_eq_unaddressable, results, except_bind_eq_error, or_iff_left]
  rintro ⟨xs, -, h⟩
  split at h <;> simp at h

/-- Under a limit up to the default one, binding the inputs ends without storage exactly at a first input
that has no data and hides an overflow, and a run ends without storage exactly there or at a first operation
that is a constant which hides one. So do filled tensors of a shape that passes the size check. -/
theorem lacks_storage_iff (e : Evaluator) (c : Case) (h : e.limit ≤ defaultLimit) :
    ((∃ s, e.seed c = .error (.unaddressable s)) ↔
      ∃ before name input after env, c.inputs.entries = before ++ (name, input) :: after ∧
        e.bindInputs .empty before = .ok env ∧ InputLacksStorage input) ∧
    ((∃ s, e.run c = .error (.unaddressable s)) ↔
      (∃ s, e.seed c = .error (.unaddressable s)) ∨
      ∃ seeded before op after env, e.seed c = .ok seeded ∧ c.operations = before ++ op :: after ∧
        e.steps 0 seeded before = .ok env ∧ ConstantLacksStorage e.registry op) ∧
    ∀ shape type fill, checkSize e.limit shape type = .ok () →
      ((∃ s, Tensor.full shape type fill = .error (.unaddressable s)) ↔ shape.HidesOverflow) := by
  have hlimit : e.limit < signedBound := Nat.lt_of_le_of_lt h (by decide)
  refine ⟨?_, ?_, ?_⟩
  · constructor
    · rintro ⟨s, hs⟩
      obtain ⟨before, name, input, after, env, heq, hbefore, hs⟩ := bindInputs_eq_error.mp hs
      exact ⟨before, name, input, after, env, heq, hbefore, (inputTensor_eq_unaddressable hlimit name).mp ⟨s, hs⟩⟩
    · rintro ⟨before, name, input, after, env, heq, hbefore, hlacks⟩
      obtain ⟨s, hs⟩ := (inputTensor_eq_unaddressable hlimit name).mpr hlacks
      exact ⟨s, bindInputs_eq_error.mpr ⟨before, name, input, after, env, heq, hbefore, hs⟩⟩
  · constructor
    · rintro ⟨s, hs⟩
      rcases except_bind_eq_error.mp hs with hs | ⟨seeded, hseeded, hs⟩
      · exact .inl ⟨s, hs⟩
      rcases except_bind_eq_error.mp hs with hs | ⟨env, -, hs⟩
      · obtain ⟨before, op, after, env, heq, hbefore, hs⟩ := steps_eq_error.mp hs
        exact .inr ⟨seeded, before, op, after, env, hseeded, heq, hbefore,
          (stepResults_eq_unaddressable hlimit _ env).mp ⟨s, hs⟩⟩
      · rcases except_bind_eq_error.mp hs with hs | ⟨outputs, -, hs⟩
        · exact absurd hs (Outcome.ofExcept_ne_unaddressable _ s)
        · simp at hs
    · rintro (⟨s, hs⟩ | ⟨seeded, before, op, after, env, hseeded, heq, hbefore, hlacks⟩)
      · exact ⟨s, except_bind_eq_error.mpr (.inl hs)⟩
      · obtain ⟨s, hs⟩ := (stepResults_eq_unaddressable hlimit (0 + before.length) env).mpr hlacks
        refine ⟨s, except_bind_eq_error.mpr (.inr ⟨seeded, hseeded, except_bind_eq_error.mpr (.inl ?_)⟩)⟩
        exact steps_eq_error.mpr ⟨before, op, after, env, heq, hbefore, hs⟩
  · intro shape type fill hsize
    rw [← Shape.not_allocatable_iff hlimit hsize]
    simp only [Tensor.full_eq_unaddressable, exists_and_left, exists_eq', and_true]

end Evaluator

/-- An input whose shape hides an overflow behind a zero dimension, read back as an output. -/
def Case.hidden : Case where
  inputs := Bindings.empty.insert "x" ⟨.f32, [0, 0xFFFFFFFFFFFFFFFF], none, none⟩
  operations := []
  outputs := ["x"]

theorem Evaluator.hidden_lacks_storage :
    defaultLimit ≤ defaultLimit ∧ (∃ s, (Evaluator.standard defaultLimit).seed .hidden = .error (.unaddressable s)) ∧
      ∃ s, (Evaluator.standard defaultLimit).run .hidden = .error (.unaddressable s) := by
  obtain ⟨hseed, hrun, -⟩ := lacks_storage_iff (.standard defaultLimit) .hidden (Nat.le_refl _)
  have hseeded := hseed.mpr ⟨[], "x", _, [], .empty, rfl, rfl, rfl, rfl, ⟨[], _, rfl, by simp, by decide⟩, by decide⟩
  exact ⟨Nat.le_refl _, hseeded, hrun.mpr (.inl hseeded)⟩

end TensorEval
