import TensorEval.Case.Validation
import TensorEval.Proofs.Bindings
import TensorEval.Proofs.Outcome

/-! The static checks read as rules: what an operation has to satisfy in its place, and what a
case has to satisfy to be accepted. -/
namespace TensorEval
variable {κ : Type} [Signature κ]

/-- The operation reads, binds and carries what the kernel asks for. -/
structure Operation.Fits (op : Operation) (kernel : κ) : Prop where
  operandCount : op.operands.length = Signature.operandCount kernel
  resultCount : op.results.length = Signature.resultCount kernel
  attributes : ∀ required ∈ Signature.requiredAttributes kernel, op.attributes.contains required = true

/-- The operation can stand where exactly the names in `defined` are bound. -/
structure Operation.Placed (registry : Registry κ) (defined : List String) (op : Operation) : Prop where
  known : ∃ kernel, registry.get? op.kind = some kernel ∧ op.Fits kernel
  ready : ∀ name ∈ op.operands, name ∈ defined
  fresh : ∀ name ∈ op.results, name ∉ defined
  distinct : op.results.Nodup

namespace Operation
variable {registry : Registry κ} {op : Operation} {defined after : List String}

theorem checkForm_eq_ok {kernel : κ} {u : Unit} : op.checkForm kernel = .ok u ↔ op.Fits kernel := by
  unfold checkForm
  split
  · rename_i hcount
    simpa using fun h : op.Fits kernel => hcount h.operandCount
  split
  · rename_i hcount
    simpa using fun h : op.Fits kernel => hcount h.resultCount
  rename_i hoperands hresults
  split
  · rename_i required hfound
    have hmissing : op.attributes.contains required = false := by simpa using List.find?_some hfound
    have hmem := List.mem_of_find?_eq_some hfound
    simpa using fun h : op.Fits kernel => absurd (h.attributes required hmem) (by simp [hmissing])
  · rename_i hnone
    refine ⟨fun _ => ⟨not_not.mp hoperands, not_not.mp hresults, ?_⟩, fun _ => rfl⟩
    simpa using hnone

theorem checkOperands_eq_ok {u : Unit} :
    op.checkOperands defined = .ok u ↔ ∀ name ∈ op.operands, name ∈ defined := by
  unfold checkOperands
  cases h : op.operands.find? (· ∉ defined) with
  | some name =>
    have hnot : name ∉ defined := by simpa using List.find?_some h
    simpa using ⟨name, List.mem_of_find?_eq_some h, hnot⟩
  | none => simpa using h

theorem define_eq_ok {names : List String} :
    op.define defined names = .ok after ↔
      (∀ name ∈ names, name ∉ defined) ∧ names.Nodup ∧ after = names.reverse ++ defined := by
  induction names generalizing defined with
  | nil => simp [define, eq_comm]
  | cons name rest ih =>
    unfold define
    by_cases hmem : name ∈ defined
    · simp [hmem]
    · rw [if_neg hmem, ih, List.forall_mem_cons, List.nodup_cons, List.reverse_cons]
      simp only [List.mem_cons, List.append_assoc, List.singleton_append, not_or]
      constructor
      · rintro ⟨hfresh, hnodup, rfl⟩
        exact ⟨⟨hmem, fun n hn => (hfresh n hn).2⟩, ⟨fun hn => (hfresh name hn).1 rfl, hnodup⟩, rfl⟩
      · rintro ⟨⟨-, hfresh⟩, ⟨hnot, hnodup⟩, rfl⟩
        exact ⟨fun n hn => ⟨fun heq => hnot (heq ▸ hn), hfresh n hn⟩, hnodup, rfl⟩

theorem Placed.congr (h : op.Placed registry defined) (hsame : ∀ name, name ∈ defined ↔ name ∈ after) :
    op.Placed registry after where
  known := h.known
  ready name hname := (hsame name).mp (h.ready name hname)
  fresh name hname hmem := h.fresh name hname ((hsame name).mpr hmem)
  distinct := h.distinct

/-- An operation passes its check exactly in a place where it can stand, and it adds its results to
the defined names. -/
theorem check_eq_ok {index : Nat} :
    op.check registry index defined = .ok after ↔
      op.Placed registry defined ∧ after = op.results.reverse ++ defined := by
  simp only [check, except_bind_eq_ok, mapError_eq_ok, Registry.lookup_eq_ok, checkForm_eq_ok,
    checkOperands_eq_ok, define_eq_ok]
  constructor
  · rintro ⟨kernel, hkernel, -, hfits, -, hready, hfresh, hdistinct, rfl⟩
    exact ⟨⟨⟨kernel, hkernel, hfits⟩, hready, hfresh, hdistinct⟩, rfl⟩
  · rintro ⟨⟨⟨kernel, hkernel, hfits⟩, hready, hfresh, hdistinct⟩, rfl⟩
    exact ⟨kernel, hkernel, (), hfits, (), hready, hfresh, hdistinct, rfl⟩

end Operation

namespace Case
variable {registry : Registry κ} {defined after : List String}

theorem checkOperations_cons {index : Nat} {op : Operation} {rest : List Operation} :
    checkOperations registry index defined (op :: rest) = .ok after ↔
      op.Placed registry defined ∧
        checkOperations registry (index + 1) (op.results.reverse ++ defined) rest = .ok after := by
  simp only [checkOperations, except_bind_eq_ok, Operation.check_eq_ok]
  constructor
  · rintro ⟨_, ⟨hplaced, rfl⟩, hrest⟩
    exact ⟨hplaced, hrest⟩
  · rintro ⟨hplaced, hrest⟩
    exact ⟨_, ⟨hplaced, rfl⟩, hrest⟩

theorem checkOutputs_eq_ok {outputs : List String} {u : Unit} :
    checkOutputs outputs defined = .ok u ↔ ∀ name ∈ outputs, name ∈ defined := by
  unfold checkOutputs
  cases h : outputs.find? (· ∉ defined) with
  | some name =>
    have hnot : name ∉ defined := by simpa using List.find?_some h
    simpa using ⟨name, List.mem_of_find?_eq_some h, hnot⟩
  | none => simpa using h

/-- With operations and outputs there is more to check. -/
theorem validate_eq_of_ne_nil {c : Case} (hoperations : c.operations ≠ []) (houtputs : c.outputs ≠ []) :
    c.validate registry = (do
      let defined ← checkOperations registry 0 c.inputs.names c.operations
      checkOutputs c.outputs defined
      return c.wiring) := by
  have hempty : (c.operations.isEmpty || c.outputs.isEmpty) = false := by
    rw [Bool.or_eq_false_iff, List.isEmpty_eq_false_iff, List.isEmpty_eq_false_iff]
    exact ⟨hoperations, houtputs⟩
  rw [validate, hempty]
  rfl

/-- What an accepted case has passed, check by check. -/
theorem validate_eq_ok {c : Case} {wiring : Wiring} (h : c.validate registry = .ok wiring) :
    c.operations ≠ [] ∧ c.outputs ≠ [] ∧
      ∃ defined, checkOperations registry 0 c.inputs.names c.operations = .ok defined ∧
        ∀ name ∈ c.outputs, name ∈ defined := by
  unfold validate at h
  split at h
  · simp at h
  · rename_i hempty
    simp only [except_bind_eq_ok, checkOutputs_eq_ok] at h
    obtain ⟨defined, hchecked, -, houtputs, -⟩ := h
    simp only [Bool.or_eq_true, List.isEmpty_iff, not_or] at hempty
    exact ⟨hempty.1, hempty.2, defined, hchecked, houtputs⟩

/-- A case that passes every check is accepted with its flow of values. -/
theorem validate_of_checks {c : Case} (hoperations : c.operations ≠ []) (houtputs : c.outputs ≠ [])
    (hchecked : checkOperations registry 0 c.inputs.names c.operations = .ok defined)
    (hdefined : ∀ name ∈ c.outputs, name ∈ defined) : c.validate registry = .ok c.wiring := by
  have hcollected : checkOutputs c.outputs defined = .ok () := checkOutputs_eq_ok.mpr hdefined
  rw [validate_eq_of_ne_nil hoperations houtputs, hchecked, except_ok_bind, hcollected, except_ok_bind, except_pure]

theorem wiring_of_validate {c : Case} {wiring : Wiring} (h : c.validate registry = .ok wiring) : wiring = c.wiring := by
  obtain ⟨hoperations, houtputs, defined, hchecked, hdefined⟩ := validate_eq_ok h
  exact Except.ok.inj (h.symm.trans (validate_of_checks hoperations houtputs hchecked hdefined))

end Case

end TensorEval
