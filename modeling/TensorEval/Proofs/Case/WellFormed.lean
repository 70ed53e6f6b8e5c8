import TensorEval.Proofs.Case.Checks

/-! The checks accept exactly the well-formed cases, whatever the known kernels ask for. Of any other case with operations
and outputs they tell the first operation that breaks a rule, and of that operation the first rule. -/
namespace TensorEval
variable {κ : Type} [Signature κ]

/-! ### The rules -/

/-- The first count or attribute that a kernel misses in an operation, and the failure that tells of it. -/
inductive Operation.FormFault (op : Operation) (kernel : κ) : Failure → Prop
  | operandCount (h : op.operands.length ≠ Signature.operandCount kernel) :
    FormFault op kernel (.operandCount op.displayName (Signature.operandCount kernel) op.operands.length)
  | resultCount (operands : op.operands.length = Signature.operandCount kernel)
    (h : op.results.length ≠ Signature.resultCount kernel) :
    FormFault op kernel (.resultCount op.displayName op.results.length (Signature.resultCount kernel))
  | attributes {before : List String} {name : String} {after : List String}
    (operands : op.operands.length = Signature.operandCount kernel)
    (results : op.results.length = Signature.resultCount kernel)
    (required : Signature.requiredAttributes kernel = before ++ name :: after)
    (carried : ∀ other ∈ before, op.attributes.contains other = true) (h : op.attributes.contains name = false) :
    FormFault op kernel (.missingAttribute op.displayName name)

/-- The first rule that the operation at `index` breaks where exactly the names in `defined` are bound, and the failure
that tells of it: it is of a known kind, it has the form that its kernel asks for, it reads bound names only, and it binds
each of its results for the first time. -/
inductive Operation.Fault (registry : Registry κ) (index : Nat) (defined : List String) (op : Operation) : Failure → Prop
  | kind (h : registry.get? op.kind = none) :
    Fault registry index defined op (.atOperation index op.displayName (.unknownKind op.kind registry.names))
  | form {kernel : κ} {failure : Failure} (known : registry.get? op.kind = some kernel)
    (h : op.FormFault kernel failure) : Fault registry index defined op failure
  | operand {kernel : κ} {before : List String} {name : String} {after : List String}
    (known : registry.get? op.kind = some kernel) (fits : op.Fits kernel) (operands : op.operands = before ++ name :: after)
    (ready : ∀ other ∈ before, other ∈ defined) (h : name ∉ defined) :
    Fault registry index defined op (.operandNotReady op.displayName name)
  | result {kernel : κ} {before : List String} {name : String} {after : List String}
    (known : registry.get? op.kind = some kernel) (fits : op.Fits kernel) (ready : ∀ other ∈ op.operands, other ∈ defined)
    (results : op.results = before ++ name :: after) (fresh : ∀ other ∈ before, other ∉ defined)
    (distinct : before.Nodup) (h : name ∈ defined ∨ name ∈ before) :
    Fault registry index defined op (.producedTwice op.displayName name)

def Case.AllPlaced (registry : Registry κ) (defined : List String) (operations : List Operation) : Prop :=
  ∀ before op after, operations = before ++ op :: after →
    op.Placed registry (defined ++ before.flatMap Operation.results)

def Case.Binds (c : Case) (name : String) : Prop :=
  name ∈ c.inputs.names ∨ ∃ op ∈ c.operations, name ∈ op.results

/-- The rules for a case. -/
structure Case.WellFormed (registry : Registry κ) (c : Case) : Prop where
  operations : c.operations ≠ []
  outputs : c.outputs ≠ []
  /-- Every kind is known, and its kernel finds the operands, results and attributes that it asks for. -/
  known : ∀ op ∈ c.operations, ∃ kernel, registry.get? op.kind = some kernel ∧ op.Fits kernel
  /-- Every operand is an input or a result of a strictly earlier operation. -/
  ready : ∀ before op after, c.operations = before ++ op :: after → ∀ name ∈ op.operands,
    name ∈ c.inputs.names ∨ ∃ earlier ∈ before, name ∈ earlier.results
  /-- No result is an input. -/
  fresh : ∀ op ∈ c.operations, ∀ name ∈ op.results, name ∉ c.inputs.names
  /-- No result is another result, of the same operation or of another one. -/
  distinct : (c.operations.flatMap Operation.results).Nodup
  /-- Every output is an input or a result. -/
  produced : ∀ name ∈ c.outputs, c.Binds name

/-! ### One operation -/

namespace Operation
variable {registry : Registry κ} {index : Nat} {defined defined' : List String} {op : Operation} {failure : Failure}

theorem checkForm_eq_error {kernel : κ} : op.checkForm kernel = .error failure ↔ op.FormFault kernel failure := by
  unfold checkForm
  constructor
  · intro h
    split at h
    next hoperands =>
      obtain rfl := Except.error.inj h
      exact .operandCount hoperands
    next hoperands =>
      split at h
      next hresults =>
        obtain rfl := Except.error.inj h
        exact .resultCount (not_not.mp hoperands) hresults
      next hresults =>
        split at h
        next name hfind =>
          obtain rfl := Except.error.inj h
          obtain ⟨hname, before, after, hrequired, hcarried⟩ := List.find?_eq_some_iff_append.mp hfind
          exact .attributes (not_not.mp hoperands) (not_not.mp hresults) hrequired (by simpa using hcarried)
            (by simpa using hname)
        next => exact nomatch h
  · intro h
    cases h with
    | operandCount h => rw [if_pos h]
    | resultCount operands h => rw [if_neg (not_not.mpr operands), if_pos h]
    | @attributes before name after operands results required carried h =>
      have hfind : (Signature.requiredAttributes kernel).find? (!op.attributes.contains ·) = some name :=
        List.find?_eq_some_iff_append.mpr ⟨by simpa using h, before, after, required, by simpa using carried⟩
      rw [if_neg (not_not.mpr operands), if_neg (not_not.mpr results), hfind]

theorem checkOperands_eq_error : op.checkOperands defined = .error failure ↔
    ∃ before name after, op.operands = before ++ name :: after ∧ (∀ other ∈ before, other ∈ defined) ∧
      name ∉ defined ∧ failure = .operandNotReady op.displayName name := by
  unfold checkOperands
  constructor
  · intro h
    split at h
    next name hfind =>
      obtain rfl := Except.error.inj h
      obtain ⟨hname, before, after, hoperands, hready⟩ := List.find?_eq_some_iff_append.mp hfind
      exact ⟨before, name, after, hoperands, by simpa using hready, by simpa using hname, rfl⟩
    next => exact nomatch h
  · rintro ⟨before, name, after, hoperands, hready, hname, rfl⟩
    have hfind : op.operands.find? (· ∉ defined) = some name :=
      List.find?_eq_some_iff_append.mpr ⟨by simpa using hname, before, after, hoperands, by simpa using hready⟩
    rw [hfind]

/-- Names are defined one by one, up to the first that is defined already or stands among those before it. -/
theorem define_eq_error {names : List String} : op.define defined names = .error failure ↔
    ∃ before name after, names = before ++ name :: after ∧ (∀ other ∈ before, other ∉ defined) ∧ before.Nodup ∧
      (name ∈ defined ∨ name ∈ before) ∧ failure = .producedTwice op.displayName name := by
  induction names generalizing defined with
  | nil => simp [define]
  | cons first rest ih =>
    rw [define, exists_split_cons]
    by_cases hfirst : first ∈ defined
    · rw [if_pos hfirst, Except.error.injEq]
      constructor
      · rintro rfl
        exact .inl ⟨List.forall_mem_nil _, List.nodup_nil, .inl hfirst, rfl⟩
      · rintro (⟨-, -, -, rfl⟩ | ⟨before, name, after, -, hfresh, -⟩)
        · rfl
        · exact absurd hfirst (hfresh first List.mem_cons_self)
    · have hnot : ¬(first ∈ defined ∨ first ∈ []) := not_or.mpr ⟨hfirst, List.not_mem_nil⟩
      rw [if_neg hfirst, ih, or_iff_right fun h => hnot h.2.2.1]
      refine exists₃_congr fun before name after => and_congr_right fun _ => ?_
      -- what is defined now is the first name and what was defined before
      rw [List.forall_mem_cons]
      simp only [List.nodup_cons, List.mem_cons, not_or, forall_and, List.forall_mem_ne']
      tauto

private theorem check_of_known {kernel : κ} (known : registry.get? op.kind = some kernel) :
    op.check registry index defined = (do
      op.checkForm kernel
      op.checkOperands defined
      op.define defined op.results) := by
  have hlookup : (registry.lookup op.kind).mapError (Failure.atOperation index op.displayName) = .ok kernel :=
    mapError_eq_ok.mpr (Registry.lookup_eq_ok.mpr known)
  rw [check, hlookup, except_ok_bind]

/-- An operation fails its check as the first rule that it breaks. -/
theorem check_eq_error : op.check registry index defined = .error failure ↔ op.Fault registry index defined failure := by
  constructor
  · intro h
    rcases except_bind_eq_error.mp h with h | ⟨kernel, hkernel, h⟩
    · obtain ⟨_, hlookup, rfl⟩ := mapError_eq_error.mp h
      obtain ⟨hnone, rfl⟩ := Registry.lookup_eq_error.mp hlookup
      exact .kind hnone
    have known := Registry.lookup_eq_ok.mp (mapError_eq_ok.mp hkernel)
    rcases except_check_eq_error.mp h with h | ⟨hform, h⟩
    · exact .form known (checkForm_eq_error.mp h)
    have fits := checkForm_eq_ok.mp hform
    rcases except_check_eq_error.mp h with h | ⟨hready, h⟩
    · obtain ⟨before, name, after, hoperands, hready, hname, rfl⟩ := checkOperands_eq_error.mp h
      exact .operand known fits hoperands hready hname
    · obtain ⟨before, name, after, hresults, hfresh, hdistinct, hname, rfl⟩ := define_eq_error.mp h
      exact .result known fits (checkOperands_eq_ok.mp hready) hresults hfresh hdistinct hname
  · intro h
    cases h with
    | kind h =>
      have hlookup := Registry.lookup_eq_error.mpr ⟨h, rfl⟩
      exact except_bind_eq_error.mpr (.inl (mapError_eq_error.mpr ⟨_, hlookup, rfl⟩))
    | form known h => rw [check_of_known known, checkForm_eq_error.mpr h, except_error_bind]
    | operand known fits operands ready h =>
      rw [check_of_known known, except_check_eq_error, except_check_eq_error, checkOperands_eq_error]
      exact .inr ⟨checkForm_eq_ok.mpr fits, .inl ⟨_, _, _, operands, ready, h, rfl⟩⟩
    | result known fits ready results fresh distinct h =>
      rw [check_of_known known, except_check_eq_error, except_check_eq_error, define_eq_error]
      exact .inr ⟨checkForm_eq_ok.mpr fits, .inr ⟨checkOperands_eq_ok.mpr ready, _, _, _, results, fresh, distinct, h, rfl⟩⟩

private theorem Fault.congr (h : op.Fault registry index defined failure)
    (hsame : ∀ name, name ∈ defined ↔ name ∈ defined') :
    op.Fault registry index defined' failure := by
  cases h with
  | kind h => exact .kind h
  | form known h => exact .form known h
  | operand known fits operands ready h =>
    exact .operand known fits operands (fun other hother => (hsame other).mp (ready other hother)) ((hsame _).not.mp h)
  | result known fits ready results fresh distinct h =>
    exact .result known fits (fun other hother => (hsame other).mp (ready other hother)) results
      (fun other hother => (hsame other).not.mp (fresh other hother)) distinct (h.imp_left (hsame _).mp)

end Operation

/-! ### Operations one after the other -/

namespace Case
variable {registry : Registry κ} {index : Nat} {defined defined' after : List String} {op : Operation}
  {operations rest : List Operation} {failure : Failure}

private theorem allPlaced_nil : AllPlaced registry defined [] := by
  intro before op after h
  exact absurd h.symm (List.append_ne_nil_of_right_ne_nil before (List.cons_ne_nil op after))

private theorem allPlaced_cons : AllPlaced registry defined (op :: rest) ↔
    op.Placed registry defined ∧ AllPlaced registry (defined ++ op.results) rest := by
  constructor
  · intro h
    refine ⟨by simpa using h [] op rest rfl, fun before op' after heq => ?_⟩
    simpa using h (op :: before) op' after (congrArg (op :: ·) heq)
  · rintro ⟨hop, hrest⟩ before op' after heq
    cases before with
    | nil =>
      obtain ⟨rfl, -⟩ := List.cons.inj heq
      simpa using hop
    | cons first before =>
      rw [List.cons_append, List.cons.injEq] at heq
      obtain ⟨rfl, heq⟩ := heq
      simpa using hrest before op' after heq

private theorem AllPlaced.congr (h : AllPlaced registry defined operations)
    (hsame : ∀ name, name ∈ defined ↔ name ∈ defined') :
    AllPlaced registry defined' operations := by
  intro before op after heq
  refine (h before op after heq).congr fun name => ?_
  rw [List.mem_append, List.mem_append, hsame]

/-- The checks list the newest names first. -/
private theorem mem_defined_after (op : Operation) (defined : List String) (name : String) :
    name ∈ op.results.reverse ++ defined ↔ name ∈ defined ++ op.results := by
  rw [List.mem_append, List.mem_append, List.mem_reverse, or_comm]

/-- Operations pass the checks exactly if each can stand after those before it, and then all their results are defined. -/
theorem checkOperations_eq_ok : checkOperations registry index defined operations = .ok after ↔
    AllPlaced registry defined operations ∧ after = (operations.flatMap Operation.results).reverse ++ defined := by
  induction operations generalizing index defined with
  | nil => simp [checkOperations, allPlaced_nil, eq_comm]
  | cons op rest ih =>
    have hplaced : AllPlaced registry (op.results.reverse ++ defined) rest ↔ AllPlaced registry (defined ++ op.results) rest :=
      ⟨fun h => h.congr (mem_defined_after op defined), fun h => h.congr fun name => (mem_defined_after op defined name).symm⟩
    rw [checkOperations_cons, ih, allPlaced_cons, and_assoc, hplaced, List.flatMap_cons, List.reverse_append,
      List.append_assoc]

/-- Operations fail the checks as the first one that cannot stand after those before it. -/
theorem checkOperations_eq_error : checkOperations registry index defined operations = .error failure ↔
    ∃ before op after, operations = before ++ op :: after ∧ AllPlaced registry defined before ∧
      op.Fault registry (index + before.length) (defined ++ before.flatMap Operation.results) failure := by
  induction operations generalizing index defined with
  | nil => simp [checkOperations]
  | cons op rest ih =>
    rw [checkOperations, except_bind_eq_error, exists_split_cons]
    refine or_congr ?_ ?_
    · simp [Operation.check_eq_error, allPlaced_nil]
    · have hlength (before : List Operation) : index + (op :: before).length = index + 1 + before.length := by
        rw [List.length_cons, Nat.add_comm before.length, ← Nat.add_assoc]
      have hnames (before : List Operation) (name : String) :
          name ∈ op.results.reverse ++ defined ++ before.flatMap Operation.results ↔
            name ∈ defined ++ (op :: before).flatMap Operation.results := by
        rw [List.mem_append, mem_defined_after, ← List.mem_append, List.flatMap_cons, List.append_assoc]
      simp only [Operation.check_eq_ok, ih, allPlaced_cons, hlength]
      constructor
      · rintro ⟨_, ⟨hplaced, rfl⟩, before, op', after, heq, hbefore, hfault⟩
        have hbefore := hbefore.congr (mem_defined_after op defined)
        exact ⟨before, op', after, heq, ⟨hplaced, hbefore⟩, hfault.congr (hnames before)⟩
      · rintro ⟨before, op', after, heq, ⟨hplaced, hbefore⟩, hfault⟩
        have hbefore := hbefore.congr fun name => (mem_defined_after op defined name).symm
        exact ⟨_, ⟨hplaced, rfl⟩, before, op', after, heq, hbefore, hfault.congr fun name => (hnames before name).symm⟩

/-! ### Whole cases -/

private theorem AllPlaced.known (h : AllPlaced registry defined operations) :
    ∀ op ∈ operations, ∃ kernel, registry.get? op.kind = some kernel ∧ op.Fits kernel := by
  intro op hop
  obtain ⟨before, rest, heq⟩ := List.append_of_mem hop
  exact (h before op rest heq).known

theorem AllPlaced.fresh (h : AllPlaced registry defined operations) :
    ∀ op ∈ operations, ∀ name ∈ op.results, name ∉ defined := by
  intro op hop name hname hmem
  obtain ⟨before, rest, heq⟩ := List.append_of_mem hop
  exact (h before op rest heq).fresh name hname (List.mem_append_left _ hmem)

theorem AllPlaced.nodup (h : AllPlaced registry defined operations) : (operations.flatMap Operation.results).Nodup := by
  induction operations generalizing defined with
  | nil => exact List.nodup_nil
  | cons op rest ih =>
    obtain ⟨hplaced, hrest⟩ := allPlaced_cons.mp h
    rw [List.flatMap_cons]
    refine List.nodup_append.mpr ⟨hplaced.distinct, ih hrest, ?_⟩
    rintro name hname _ hmem rfl
    obtain ⟨later, hlater, hresult⟩ := List.mem_flatMap.mp hmem
    exact hrest.fresh later hlater name hresult (List.mem_append_right _ hname)

/-- The rules that relate operations to each other, put as rules for each of them in its place. -/
private theorem allPlaced_iff : AllPlaced registry defined operations ↔
    (∀ op ∈ operations, ∃ kernel, registry.get? op.kind = some kernel ∧ op.Fits kernel) ∧
    (∀ before op after, operations = before ++ op :: after → ∀ name ∈ op.operands,
      name ∈ defined ∨ ∃ earlier ∈ before, name ∈ earlier.results) ∧
    (∀ op ∈ operations, ∀ name ∈ op.results, name ∉ defined) ∧ (operations.flatMap Operation.results).Nodup := by
  constructor
  · intro h
    refine ⟨h.known, fun before op rest heq name hname => ?_, h.fresh, h.nodup⟩
    rw [← List.mem_flatMap, ← List.mem_append]
    exact (h before op rest heq).ready name hname
  · rintro ⟨hknown, hready, hfresh, hdistinct⟩ before op rest rfl
    have hop : op ∈ before ++ op :: rest := List.mem_append_right _ List.mem_cons_self
    rw [List.flatMap_append, List.flatMap_cons] at hdistinct
    obtain ⟨-, hlater, hapart⟩ := List.nodup_append.mp hdistinct
    refine ⟨hknown op hop, fun name hname => ?_, fun name hname hmem => ?_, (List.nodup_append.mp hlater).1⟩
    · rw [List.mem_append, List.mem_flatMap]
      exact hready before op rest rfl name hname
    · rcases List.mem_append.mp hmem with hmem | hmem
      · exact hfresh op hop name hname hmem
      · exact hapart name hmem name (List.mem_append_left _ hname) rfl

variable {c : Case}

theorem wellFormed_iff_allPlaced : c.WellFormed registry ↔ c.operations ≠ [] ∧ c.outputs ≠ [] ∧
    AllPlaced registry c.inputs.names c.operations ∧ ∀ name ∈ c.outputs, c.Binds name := by
  rw [allPlaced_iff]
  constructor
  · intro h
    exact ⟨h.operations, h.outputs, ⟨h.known, h.ready, h.fresh, h.distinct⟩, h.produced⟩
  · rintro ⟨hoperations, houtputs, ⟨hknown, hready, hfresh, hdistinct⟩, hproduced⟩
    exact ⟨hoperations, houtputs, hknown, hready, hfresh, hdistinct, hproduced⟩

private theorem mem_after {name : String} : name ∈ (operations.flatMap Operation.results).reverse ++ defined ↔
    name ∈ defined ∨ ∃ op ∈ operations, name ∈ op.results := by
  rw [List.mem_append, List.mem_reverse, List.mem_flatMap, or_comm]

theorem exists_validate_eq_ok : (∃ wiring, c.validate registry = .ok wiring) ↔ c.WellFormed registry := by
  rw [wellFormed_iff_allPlaced]
  constructor
  · rintro ⟨wiring, h⟩
    obtain ⟨hoperations, houtputs, defined, hchecked, hdefined⟩ := validate_eq_ok h
    obtain ⟨hplaced, rfl⟩ := checkOperations_eq_ok.mp hchecked
    exact ⟨hoperations, houtputs, hplaced, fun name hname => mem_after.mp (hdefined name hname)⟩
  · rintro ⟨hoperations, houtputs, hplaced, hproduced⟩
    refine ⟨c.wiring, validate_of_checks hoperations houtputs (checkOperations_eq_ok.mpr ⟨hplaced, rfl⟩) ?_⟩
    exact fun name hname => mem_after.mpr (hproduced name hname)

private theorem validate_eq_error_of_not_allPlaced (hoperations : c.operations ≠ []) (houtputs : c.outputs ≠ [])
    (hplaced : ¬AllPlaced registry c.inputs.names c.operations) :
    c.validate registry = .error failure ↔ checkOperations registry 0 c.inputs.names c.operations = .error failure := by
  rw [validate_eq_of_ne_nil hoperations houtputs]
  cases hchecked : checkOperations registry 0 c.inputs.names c.operations with
  | ok after => exact absurd (checkOperations_eq_ok.mp hchecked).1 hplaced
  | error failure' => rw [except_error_bind, Except.error.injEq, Except.error.injEq]

/-- The checks accept exactly the well-formed cases. If a case has operations and outputs and one of its operations cannot
stand after those before it, then the failure is that of the first such operation, and of that operation it is the first
rule that it breaks. -/
theorem validate_iff_wellFormed (registry : Registry κ) (c : Case) :
    ((∃ wiring, c.validate registry = .ok wiring) ↔ c.WellFormed registry) ∧
    (c.operations ≠ [] → c.outputs ≠ [] → ¬AllPlaced registry c.inputs.names c.operations →
      ∀ failure, c.validate registry = .error failure ↔ ∃ before op after, c.operations = before ++ op :: after ∧
        AllPlaced registry c.inputs.names before ∧
          op.Fault registry before.length (c.inputs.names ++ before.flatMap Operation.results) failure) := by
  refine ⟨exists_validate_eq_ok, fun hoperations houtputs hplaced failure => ?_⟩
  rw [validate_eq_error_of_not_allPlaced hoperations houtputs hplaced, checkOperations_eq_error]
  simp only [Nat.zero_add]

/-- A sum, and a product that reads its own result. -/
def circular : Case where
  inputs := Bindings.empty.insert "x" ⟨.i32, [2], none, none⟩
  operations := [
    ⟨"arith.addi", ["x", "x"], ["y"], .empty, none⟩,
    ⟨"arith.muli", ["y", "z"], ["z"], .empty, none⟩]
  outputs := ["z"]

theorem circular_not_wellFormed : ¬circular.WellFormed Registry.standard ∧
    circular.validate Registry.standard = .error (.operandNotReady "arith.muli" "z") := by
  obtain ⟨haccepted, hrefused⟩ := validate_iff_wellFormed Registry.standard circular
  have hplaced : ¬AllPlaced Registry.standard circular.inputs.names circular.operations := by
    intro h
    have hready := (h [_] _ [] rfl).ready "z" (by decide)
    exact absurd hready (by decide)
  have hfails : circular.validate Registry.standard = .error (.operandNotReady "arith.muli" "z") := by
    refine (hrefused (List.cons_ne_nil _ _) (List.cons_ne_nil _ _) hplaced _).mpr ⟨[_], _, [], rfl, ?_, ?_⟩
    · refine allPlaced_cons.mpr ⟨⟨⟨_, rfl, rfl, rfl, List.forall_mem_nil _⟩, ?_, ?_, ?_⟩, allPlaced_nil⟩ <;> decide
    · have hfits : Operation.Fits ⟨"arith.muli", ["y", "z"], ["z"], .empty, none⟩ (Kernel.elementwise .mul .integer) :=
        ⟨rfl, rfl, List.forall_mem_nil _⟩
      have hoperands : ["y", "z"] = ["y"] ++ "z" :: [] := rfl
      refine .operand rfl hfits hoperands ?_ ?_ <;> decide
  refine ⟨fun hwell => ?_, hfails⟩
  obtain ⟨wiring, hok⟩ := haccepted.mpr hwell
  exact nomatch hfails.symm.trans hok

end Case

end TensorEval
