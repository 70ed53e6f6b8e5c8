import TensorEval.Proofs.Case.Checks
import TensorEval.Proofs.Run.Environment

/-! Accepted cases run to their outputs unless their data, types, shapes or sizes are at fault: the
names that the checks take for defined are the names that a run has bound. -/
namespace TensorEval

/-- A failure that lies in the data, the types, the shapes or the sizes of a case. -/
inductive Failure.OfData : Failure → Prop
  | unsupportedConstant (kind : String) : OfData (.unsupportedConstant kind)
  | notUniform (shape : Shape) : OfData (.notUniform shape)
  | operandType (operation operand : String) (type : ElementType) (domain : Domain) :
    OfData (.operandType operation operand type domain)
  | incompatibleShapes (left right : Shape) : OfData (.incompatibleShapes left right)
  | overLimit (shape : Shape) (byteLength limit : Nat) : OfData (.overLimit shape byteLength limit)
  | countOverflow (shape : Shape) : OfData (.countOverflow shape)
  | dataLength (name : String) (type : ElementType) (expected : Nat) (unit : DataUnit) (actual : Nat) :
    OfData (.dataLength name type expected unit actual)
  | ambiguousData (name : String) : OfData (.ambiguousData name)

/-- A failure that lies in how the operations of a case are put together. -/
inductive Failure.OfWiring : Failure → Prop
  | unknownKind (requested : String) (available : List String) : OfWiring (.unknownKind requested available)
  | operandCount (operation : String) (expected actual : Nat) : OfWiring (.operandCount operation expected actual)
  | resultCount (operation : String) (declared expected : Nat) : OfWiring (.resultCount operation declared expected)
  | missingAttribute (operation required : String) : OfWiring (.missingAttribute operation required)
  | missingOperand (name : String) : OfWiring (.missingOperand name)
  | outputNotProduced (name : String) : OfWiring (.outputNotProduced name)

namespace Failure

theorem OfData.not_ofWiring {f : Failure} (h : f.OfData) : ¬ f.OfWiring := by
  intro hw
  cases h <;> cases hw

private theorem OfData.rootCause_eq {f : Failure} (h : f.OfData) : f.rootCause = f := by
  cases h <;> rfl

end Failure

def Stop.OfData : Stop → Prop
  | .failed f => f.rootCause.OfData
  | .unaddressable s => ¬ s.Allocatable

abbrev Outcome.Sound {α : Type} (P : α → Prop) (x : Outcome α) : Prop := Ends Stop.OfData P x

namespace Outcome
variable {α : Type} {P : α → Prop}

private theorem sound_ofExcept {x : Except Failure α} (h : Ends Failure.OfData P x) : Sound P (ofExcept x) := by
  refine Ends.mapError h ?_
  intro f hf
  change f.rootCause.OfData
  rwa [hf.rootCause_eq]

private theorem sound_atOperation {x : Outcome α} (h : Sound P x) (index : Nat) (name : String) :
    Sound P (x.atOperation index name) := by
  refine Ends.mapError h ?_
  intro stop hstop
  cases stop <;> exact hstop

end Outcome

/-! ### Inputs and constants -/

theorem checkSize_ends (limit : Nat) (shape : Shape) (type : ElementType) :
    Ends Failure.OfData (fun _ => True) (checkSize limit shape type) := by
  unfold checkSize
  split
  · exact .countOverflow shape
  · split
    · exact .overLimit ..
    · trivial

private theorem Tensor.full_sound (shape : Shape) (type : ElementType) (fill : Fill) :
    Outcome.Sound (fun _ => True) (Tensor.full shape type fill) := by
  unfold Tensor.full
  split
  · trivial
  · rename_i hstorage
    exact hstorage

theorem Tensor.ofNumbers_ends (name : String) (shape : Shape) (type : ElementType) (numbers : List Double) :
    Ends Failure.OfData (fun _ => True) (Tensor.ofNumbers name shape type numbers) := by
  unfold Tensor.ofNumbers
  split
  · exact .countOverflow shape
  split
  · split
    · trivial
    · exact .countOverflow shape
  · exact .dataLength ..

theorem Tensor.ofBytes_ends (name : String) (shape : Shape) (type : ElementType) (bytes : List UInt8) :
    Ends Failure.OfData (fun _ => True) (Tensor.ofBytes name shape type bytes) := by
  unfold Tensor.ofBytes
  split
  · exact .countOverflow shape
  split
  · split
    · trivial
    · exact .countOverflow shape
  · exact .dataLength ..

private theorem Input.tensor_sound (name : String) (input : Input) :
    Outcome.Sound (fun _ => True) (input.tensor name) := by
  unfold Input.tensor
  split
  · exact Outcome.sound_ofExcept (Tensor.ofNumbers_ends ..)
  · exact Outcome.sound_ofExcept (Tensor.ofBytes_ends ..)
  · split
    · exact .countOverflow input.shape
    · exact Tensor.full_sound ..
  · exact .ambiguousData name

namespace Kernel

private theorem constantParts_ends (value : Attribute) : Ends Failure.OfData (fun _ => True) (constantParts value) := by
  have uniform {α : Type} (d : Dense α) : Ends Failure.OfData (fun _ => True) d.uniform := by
    unfold Dense.uniform
    split
    · trivial
    · exact .notUniform d.shape
  cases value with
  | float x type => trivial
  | integer n type => trivial
  | denseFloat d => exact (uniform d).map fun _ _ => trivial
  | denseInteger d => exact (uniform d).map fun _ _ => trivial
  | string s => exact .unsupportedConstant _
  | unit => exact .unsupportedConstant _
  | array items => exact .unsupportedConstant _
  | typeName s => exact .unsupportedConstant _

private theorem materialize_sound (limit : Nat) (value : Attribute) :
    Outcome.Sound (fun _ => True) (materialize limit value) := by
  refine (Outcome.sound_ofExcept (constantParts_ends value)).bind ?_
  rintro ⟨shape, type, fill⟩ -
  refine (Outcome.sound_ofExcept (checkSize_ends limit shape type)).bind ?_
  intro _ _
  exact Tensor.full_sound shape type fill

/-! ### One operation -/

private theorem combine_ends (operator : Operator) (domain : Domain) (limit : Nat) {env : Environment} (op : Operation)
    {left right : String} (hleft : left ∈ env.names) (hright : right ∈ env.names) :
    Ends Failure.OfData (fun _ => True) (combine operator domain limit env op left right) := by
  obtain ⟨x, hx⟩ := Bindings.mem_names.mp hleft
  obtain ⟨y, hy⟩ := Bindings.mem_names.mp hright
  have domains (name : String) (x : Tensor) :
      Ends Failure.OfData (fun _ => True) (checkDomain op domain name x) := by
    unfold checkDomain
    split
    · trivial
    · exact .operandType ..
  have shapes : Ends Failure.OfData (fun _ => True) (commonShape x y) := by
    unfold commonShape
    split
    · trivial
    · exact .incompatibleShapes ..
  have binary : Ends Failure.OfData (fun _ => True) (x.binary operator y) := by
    unfold Tensor.binary
    split
    · exact .incompatibleShapes ..
    · split
      · trivial
      · exact .incompatibleShapes ..
  unfold combine
  simp only [Environment.lookup, hx, hy, except_ok_bind]
  exact (domains left x).bind fun _ _ => (domains right y).bind fun _ _ => shapes.bind fun shape _ =>
    (checkSize_ends limit shape _).bind fun _ _ => binary

/-- A kernel gives as many tensors as it declares to an operation that fits it and whose operands are
bound. -/
theorem evaluate_sound {kernel : Kernel} (limit : Nat) {env : Environment} {op : Operation}
    (hfits : op.Fits kernel) (hready : ∀ name ∈ op.operands, name ∈ env.names) :
    Outcome.Sound (fun xs => xs.length = kernel.resultCount) (kernel.evaluate limit env op) := by
  have hcount := hfits.operandCount
  cases kernel with
  | constant =>
    have hnone : op.operands = [] := List.eq_nil_of_length_eq_zero hcount
    obtain ⟨value, hvalue⟩ : ∃ value, op.attributes.get? valueName = some value :=
      Bindings.mem_names.mp (Bindings.contains_eq_true.mp (hfits.attributes valueName (List.mem_singleton_self valueName)))
    unfold evaluate
    simp only [hnone, constantValue, hvalue, Outcome.ofExcept_ok, except_ok_bind]
    refine (materialize_sound limit value).bind ?_
    intro x _
    rfl
  | elementwise operator domain =>
    obtain ⟨left, right, hoperands⟩ := List.length_eq_two.mp hcount
    unfold evaluate
    simp only [hoperands]
    refine (Outcome.sound_ofExcept (combine_ends operator domain limit op
      (hready left (by simp [hoperands])) (hready right (by simp [hoperands])))).bind ?_
    intro x _
    rfl

end Kernel

namespace Evaluator
variable {e : Evaluator} {env : Environment} {op : Operation} {defined : List String}

theorem stepResults_sound (index : Nat) (hplaced : op.Placed e.registry env.names) :
    Outcome.Sound (fun xs => xs.length = op.results.length) (e.stepResults index env op) := by
  obtain ⟨kernel, hkernel, hfits⟩ := hplaced.known
  refine Outcome.sound_atOperation (Ends.bind (P := fun xs => xs.length = op.results.length) ?_ ?_) index op.displayName
  · unfold Registry.evaluate
    rw [Registry.lookup_eq_ok.mpr hkernel, Outcome.ofExcept_ok, except_ok_bind, hfits.resultCount]
    exact Kernel.evaluate_sound e.limit hfits hplaced.ready
  · intro xs hxs
    rw [if_pos hxs]
    exact hxs

/-- The names that the checks take for defined after some operations are those that are bound then. -/
theorem steps_sound {index : Nat} {operations : List Operation} {after : List String}
    (hnames : ∀ name, name ∈ defined ↔ name ∈ env.names)
    (hchecked : Case.checkOperations e.registry index defined operations = .ok after) :
    Outcome.Sound (fun env' => ∀ name, name ∈ after ↔ name ∈ env'.names) (e.steps index env operations) := by
  induction operations generalizing index env defined with
  | nil =>
    obtain rfl : defined = after := by simpa [Case.checkOperations] using hchecked
    exact hnames
  | cons op rest ih =>
    obtain ⟨hplaced, hrest⟩ := Case.checkOperations_cons.mp hchecked
    refine (stepResults_sound index (hplaced.congr hnames)).bind ?_
    intro xs hxs
    exact ih (mem_defined_bind hxs hnames) hrest

private theorem bindInputs_sound (env : Environment) (inputs : List (String × Input)) :
    Outcome.Sound (fun env' => ∀ name, name ∈ env'.names ↔ name ∈ inputs.map Prod.fst ∨ name ∈ env.names)
      (e.bindInputs env inputs) := by
  induction inputs generalizing env with
  | nil =>
    intro name
    simp
  | cons entry rest ih =>
    obtain ⟨name, input⟩ := entry
    have hinput : Outcome.Sound (fun _ => True) (e.inputTensor name input) :=
      (Outcome.sound_ofExcept (checkSize_ends ..)).bind fun _ _ => input.tensor_sound name
    refine hinput.bind ?_
    intro x _
    refine (ih (env.insert name x)).imp ?_
    intro env' hnames key
    rw [hnames, Bindings.mem_names_insert, List.map_cons, List.mem_cons]
    tauto

theorem seed_sound (c : Case) :
    Outcome.Sound (fun env => ∀ name, name ∈ c.inputs.names ↔ name ∈ env.names) (e.seed c) := by
  refine (bindInputs_sound .empty c.inputs.entries).imp ?_
  intro env hnames name
  rw [hnames]
  simp [Bindings.names, Bindings.empty]

private theorem collect_ends {outputs : List String} (hbound : ∀ name ∈ outputs, name ∈ env.names) :
    Ends Failure.OfData (fun pairs => pairs.map Prod.fst = outputs) (collect env outputs) := by
  induction outputs with
  | nil => rfl
  | cons name rest ih =>
    obtain ⟨x, hx⟩ := Bindings.mem_names.mp (hbound name (by simp))
    unfold collect
    simp only [List.mapM_cons, hx, except_ok_bind]
    refine Ends.bind (ih fun key hkey => hbound key (by simp [hkey])) ?_
    rintro pairs rfl
    rfl

/-- A run of an accepted case gives one output for each declared one, in their order, or it stops for a
reason that lies in the data, the types, the shapes or the sizes. -/
theorem run_sound {c : Case} {wiring : Wiring} (h : c.validate e.registry = .ok wiring) :
    Outcome.Sound (fun run => run.outputs.map Prod.fst = c.outputs) (e.run c) := by
  obtain ⟨-, -, defined, hchecked, houtputs⟩ := Case.validate_eq_ok h
  refine (seed_sound c).bind ?_
  intro env hnames
  refine (steps_sound hnames hchecked).bind ?_
  intro env' hnames'
  have hbound : ∀ name ∈ c.outputs, name ∈ env'.names := fun name hname => (hnames' name).mp (houtputs name hname)
  exact (Outcome.sound_ofExcept (collect_ends hbound)).bind fun _ hpairs => hpairs

/-- Under any registry of kernels and any limit, an accepted case runs to one output for each declared one,
in their order, unless its data, types, shapes or sizes are at fault or there is no storage for a shape. No
unknown kind, wrong count, missing attribute, missing operand or missing output is ever at fault. -/
theorem run_of_accepted (registry : Registry) (limit : Nat) (c : Case) (wiring : Wiring)
    (h : c.validate registry = .ok wiring) :
    (∃ run, (Evaluator.mk registry limit).run c = .ok run ∧ run.outputs.map Prod.fst = c.outputs) ∨
    (∃ f, (Evaluator.mk registry limit).run c = .error (.failed f) ∧
      f.rootCause.OfData ∧ ¬ f.rootCause.OfWiring) ∨
    (∃ s, (Evaluator.mk registry limit).run c = .error (.unaddressable s) ∧ ¬ s.Allocatable) := by
  have hsound := run_sound (e := ⟨registry, limit⟩) h
  cases hrun : (Evaluator.mk registry limit).run c with
  | ok run =>
    rw [hrun] at hsound
    exact .inl ⟨run, rfl, hsound⟩
  | error stop =>
    rw [hrun] at hsound
    cases stop with
    | failed f => exact .inr (.inl ⟨f, rfl, hsound, Failure.OfData.not_ofWiring hsound⟩)
    | unaddressable s => exact .inr (.inr ⟨s, rfl, hsound⟩)

end Evaluator

/-- An input without data, a constant, and the sum of the input with itself. -/
def Case.doubling : Case where
  inputs := Bindings.empty.insert "x" ⟨.f32, [2], none, none⟩
  operations := [
    ⟨"arith.constant", [], ["c"], Bindings.empty.insert Kernel.valueName (.integer 1 .i64), none⟩,
    ⟨"arith.addf", ["x", "x"], ["y"], .empty, none⟩]
  outputs := ["y", "y"]

theorem Evaluator.run_of_accepted_doubling :
    Case.doubling.validate .standard = .ok Case.doubling.wiring ∧
    ((∃ run, (Evaluator.standard 8).run .doubling = .ok run ∧ run.outputs.map Prod.fst = ["y", "y"]) ∨
    (∃ f, (Evaluator.standard 8).run .doubling = .error (.failed f) ∧
      f.rootCause.OfData ∧ ¬ f.rootCause.OfWiring) ∨
    (∃ s, (Evaluator.standard 8).run .doubling = .error (.unaddressable s) ∧ ¬ s.Allocatable)) :=
  ⟨rfl, run_of_accepted .standard 8 .doubling Case.doubling.wiring rfl⟩

end TensorEval
