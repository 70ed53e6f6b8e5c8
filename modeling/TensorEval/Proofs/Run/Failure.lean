import TensorEval.Proofs.Run.Replay

/-! Failed runs: a run stops at the first operation that fails and says which, and what it says of that operation is what
can be seen by running the operations before it. Other failures come from the inputs or from a missing output. -/
namespace TensorEval

/-- How an operation fails in an environment: its kernel does, or it gives another number of tensors than the operation
declares. -/
inductive Evaluator.OperationFault (e : Evaluator) (env : Environment) (op : Operation) : Failure → Prop
  | evaluation {source : Failure} (h : e.registry.evaluate e.limit env op = .error (.failed source)) :
    OperationFault e env op source
  | resultCount {xs : List Tensor} (h : e.registry.evaluate e.limit env op = .ok xs)
    (hlength : xs.length ≠ op.results.length) :
    OperationFault e env op (.resultCount op.displayName op.results.length xs.length)

/-! ### Inputs -/

private theorem Outcome.ofData_of_ofExcept {α : Type} {x : Except Failure α} {failure : Failure}
    (hx : Ends Failure.OfData (fun _ => True) x) (h : ofExcept x = .error (.failed failure)) : failure.OfData := by
  obtain ⟨f, hf, hstop⟩ := ofExcept_eq_error.mp h
  exact Stop.failed.inj hstop ▸ hx.of_error hf

private theorem Input.ofData_of_tensor {name : String} {input : Input} {failure : Failure}
    (h : input.tensor name = .error (.failed failure)) : failure.OfData := by
  unfold tensor at h
  split at h
  · exact Outcome.ofData_of_ofExcept (Tensor.ofNumbers_ends ..) h
  · exact Outcome.ofData_of_ofExcept (Tensor.ofBytes_ends ..) h
  · split at h
    · obtain rfl := Stop.failed.inj (Except.error.inj h)
      exact .countOverflow input.shape
    · unfold Tensor.zeros Tensor.full at h
      split at h <;> cases h
  · obtain rfl := Stop.failed.inj (Except.error.inj h)
    exact .ambiguousData name

namespace Evaluator
variable {e : Evaluator} {env env' : Environment} {c : Case} {op : Operation} {operations : List Operation}
  {failure source : Failure}

private theorem seed_eq_error {stop : Stop} : e.seed c = .error stop ↔
    ∃ before name input after, c.inputs.entries = before ++ (name, input) :: after ∧
      (∀ entry ∈ before, ∃ x, e.inputTensor entry.1 entry.2 = .ok x) ∧ e.inputTensor name input = .error stop := by
  rw [seed, bindInputs_eq_error]
  constructor
  · rintro ⟨before, name, input, after, env', heq, hbefore, h⟩
    exact ⟨before, name, input, after, heq, exists_bindInputs_eq_ok.mp ⟨env', hbefore⟩, h⟩
  · rintro ⟨before, name, input, after, heq, hbefore, h⟩
    obtain ⟨env', hbefore⟩ : ∃ env', e.bindInputs .empty before = .ok env' := exists_bindInputs_eq_ok.mpr hbefore
    exact ⟨before, name, input, after, env', heq, hbefore, h⟩

private theorem ofData_of_seed (h : e.seed c = .error (.failed failure)) : failure.OfData := by
  obtain ⟨before, name, input, after, -, -, h⟩ := seed_eq_error.mp h
  rcases except_check_eq_error.mp h with h | ⟨-, h⟩
  · exact Outcome.ofData_of_ofExcept (checkSize_ends ..) h
  · exact Input.ofData_of_tensor h

/-! ### Operations -/

private theorem results_eq_failed : e.results env op = .error (.failed source) ↔ e.OperationFault env op source := by
  rw [results, except_bind_eq_error]
  constructor
  · rintro (h | ⟨xs, hxs, h⟩)
    · exact .evaluation h
    · split at h
      · exact nomatch h
      next hlength =>
        obtain rfl := Stop.failed.inj (Except.error.inj h)
        exact .resultCount hxs hlength
  · intro h
    cases h with
    | evaluation h => exact .inl h
    | resultCount h hlength => exact .inr ⟨_, h, if_neg hlength⟩

/-- Steps fail as the first operation with a fault, in the environment that the operations before it leave. -/
theorem steps_eq_failed : e.steps 0 env operations = .error (.failed failure) ↔
    ∃ index op env' source, operations[index]? = some op ∧ e.steps 0 env (operations.take index) = .ok env' ∧
      e.OperationFault env' op source ∧ failure = .atOperation index op.displayName source := by
  rw [steps_eq_error]
  simp only [Nat.zero_add, stepResults, Outcome.atOperation_eq_failed, results_eq_failed]
  constructor
  · rintro ⟨before, op, after, env', rfl, hbefore, source, hfault, rfl⟩
    refine ⟨before.length, op, env', source, ?_, ?_, hfault, rfl⟩
    · rw [List.getElem?_append_right (Nat.le_refl _), Nat.sub_self, List.getElem?_cons_zero]
    · rwa [List.take_left]
  · rintro ⟨index, op, env', source, hop, hbefore, hfault, rfl⟩
    obtain ⟨hindex, rfl⟩ := List.getElem?_eq_some_iff.mp hop
    refine ⟨operations.take index, _, operations.drop (index + 1), env', ?_, hbefore, source, hfault, ?_⟩
    · rw [← List.drop_eq_getElem_cons hindex, List.take_append_drop]
    · rw [List.length_take_of_le (Nat.le_of_lt hindex)]

/-- Steps bind the results of their operations and nothing else, whether or not they pass the checks. -/
private theorem mem_names_of_steps {index : Nat} {name : String} (h : e.steps index env operations = .ok env') :
    name ∈ env'.names ↔ name ∈ env.names ∨ ∃ op ∈ operations, name ∈ op.results := by
  induction operations generalizing index env with
  | nil =>
    obtain rfl : env = env' := Except.ok.inj h
    simp
  | cons op rest ih =>
    obtain ⟨xs, hxs, h⟩ := except_bind_eq_ok.mp h
    rw [ih h, mem_names_bind (stepResults_eq_ok hxs).2, List.exists_mem_cons_iff, or_left_comm, or_assoc]

private theorem mem_names_of_seed {index : Nat} {name : String} (hseeded : e.seed c = .ok env)
    (h : e.steps index env operations = .ok env') :
    name ∈ env'.names ↔ name ∈ c.inputs.names ∨ ∃ op ∈ operations, name ∈ op.results := by
  rw [mem_names_of_steps h, ← (seed_sound c).of_ok hseeded name]

/-! ### Runs -/

private theorem run_eq_ok_of_no_outputs {run : Run} : e.run { c with operations, outputs := [] } = .ok run ↔
    ∃ seeded, e.seed c = .ok seeded ∧ e.steps 0 seeded operations = .ok run.environment ∧ run.outputs = [] := by
  rw [run_eq_ok]
  refine exists_congr fun seeded => and_congr_right fun _ => and_congr_right fun _ => ?_
  have hnone : collect run.environment [] = .ok [] := rfl
  rw [hnone, Except.ok.injEq, eq_comm]

theorem run_eq_failed : e.run c = .error (.failed failure) ↔ e.seed c = .error (.failed failure) ∨
    ∃ seeded, e.seed c = .ok seeded ∧ (e.steps 0 seeded c.operations = .error (.failed failure) ∨
      ∃ env, e.steps 0 seeded c.operations = .ok env ∧ collect env c.outputs = .error failure) := by
  rw [run, except_bind_eq_error]
  refine or_congr_right (exists_congr fun seeded => and_congr_right fun _ => ?_)
  rw [except_bind_eq_error]
  refine or_congr_right (exists_congr fun env => and_congr_right fun _ => ?_)
  rw [except_bind_eq_error, Outcome.ofExcept_eq_error]
  constructor
  · rintro (⟨f, hf, hstop⟩ | ⟨outputs, -, h⟩)
    · rwa [← Stop.failed.inj hstop]
    · exact nomatch h
  · exact fun h => .inl ⟨failure, h, rfl⟩

private theorem run_eq_failed_atOperation {index : Nat} {name : String} :
    e.run c = .error (.failed (.atOperation index name source)) ↔ ∃ op run, c.operations[index]? = some op ∧
      name = op.displayName ∧ e.run { c with operations := c.operations.take index, outputs := [] } = .ok run ∧
        e.OperationFault run.environment op source := by
  rw [run_eq_failed]
  constructor
  · rintro (h | ⟨seeded, hseeded, h | ⟨env, -, h⟩⟩)
    · exact nomatch ofData_of_seed h
    · obtain ⟨index', op, env', source', hop, hbefore, hfault, heq⟩ := steps_eq_failed.mp h
      obtain ⟨rfl, rfl, rfl⟩ := Failure.atOperation.inj heq
      exact ⟨op, ⟨[], env'⟩, hop, rfl, run_eq_ok_of_no_outputs.mpr ⟨seeded, hseeded, hbefore, rfl⟩, hfault⟩
    · obtain ⟨_, _, _, -, -, -, heq⟩ := collect_eq_error.mp h
      exact nomatch heq
  · rintro ⟨op, run, hop, rfl, hrun, hfault⟩
    obtain ⟨seeded, hseeded, hsteps, -⟩ := run_eq_ok_of_no_outputs.mp hrun
    exact .inr ⟨seeded, hseeded, .inl (steps_eq_failed.mpr ⟨index, op, _, source, hop, hsteps, hfault, rfl⟩)⟩

/-- An output is missing if it is neither an input nor a result, and this shows after all operations only. -/
private theorem run_eq_failed_outputNotProduced {name : String} :
    e.run c = .error (.failed (.outputNotProduced name)) ↔ (∃ run, e.run { c with outputs := [] } = .ok run) ∧
      ∃ before after, c.outputs = before ++ name :: after ∧ (∀ other ∈ before, c.Binds other) ∧ ¬c.Binds name := by
  rw [run_eq_failed]
  constructor
  · rintro (h | ⟨seeded, hseeded, h | ⟨env, hsteps, h⟩⟩)
    · exact nomatch ofData_of_seed h
    · obtain ⟨_, _, _, _, -, -, -, heq⟩ := steps_eq_failed.mp h
      exact nomatch heq
    · obtain ⟨before, _, after, houtputs, hbefore, hname, heq⟩ := collect_eq_error.mp h
      obtain rfl := Failure.outputNotProduced.inj heq
      have hbound (other : String) : other ∈ env.names ↔ c.Binds other := mem_names_of_seed hseeded hsteps
      refine ⟨⟨⟨[], env⟩, run_eq_ok_of_no_outputs.mpr ⟨seeded, hseeded, hsteps, rfl⟩⟩, before, after, houtputs, ?_, ?_⟩
      · exact fun other hother => (hbound other).mp (hbefore other hother)
      · exact (hbound name).not.mp hname
  · rintro ⟨⟨run, hrun⟩, before, after, houtputs, hbefore, hname⟩
    obtain ⟨seeded, hseeded, hsteps, -⟩ := run_eq_ok_of_no_outputs.mp hrun
    have hbound (other : String) : other ∈ run.environment.names ↔ c.Binds other := mem_names_of_seed hseeded hsteps
    have hcollect : collect run.environment c.outputs = .error (.outputNotProduced name) := by
      refine collect_eq_error.mpr ⟨before, name, after, houtputs, ?_, (hbound name).not.mpr hname, rfl⟩
      exact fun other hother => (hbound other).mpr (hbefore other hother)
    exact .inr ⟨seeded, hseeded, .inr ⟨run.environment, hsteps, hcollect⟩⟩

private theorem run_eq_failed_iff_seed (hoperation : ∀ index name source, failure ≠ .atOperation index name source)
    (houtput : ∀ name, failure ≠ .outputNotProduced name) :
    e.run c = .error (.failed failure) ↔ e.seed c = .error (.failed failure) := by
  rw [run_eq_failed]
  refine or_iff_left ?_
  rintro ⟨seeded, -, h | ⟨env, -, h⟩⟩
  · obtain ⟨index, op, _, source, -, -, -, heq⟩ := steps_eq_failed.mp h
    exact hoperation index op.displayName source heq
  · obtain ⟨_, name, _, -, -, -, heq⟩ := collect_eq_error.mp h
    exact houtput name heq

/-- Where the failure of a run comes from, whether or not the checks accept the case. It is the failure of an operation
exactly if the case cut before that operation runs without outputs and the operation, evaluated in the environment of that
run, fails or gives another number of tensors than it declares. An output is missing exactly if the case runs without
outputs and that output is the first that is neither an input nor a result. Any other failure is that of the first input, in
the order of the names, that has no tensor, and binding the inputs alone fails alike. -/
theorem run_failure_origin (e : Evaluator) (c : Case) :
    (∀ index name source, e.run c = .error (.failed (.atOperation index name source)) ↔
      ∃ op run, c.operations[index]? = some op ∧ name = op.displayName ∧
        e.run { c with operations := c.operations.take index, outputs := [] } = .ok run ∧
          e.OperationFault run.environment op source) ∧
    (∀ name, e.run c = .error (.failed (.outputNotProduced name)) ↔
      (∃ run, e.run { c with outputs := [] } = .ok run) ∧
        ∃ before after, c.outputs = before ++ name :: after ∧ (∀ other ∈ before, c.Binds other) ∧ ¬c.Binds name) ∧
    (∀ failure, (∀ index name source, failure ≠ .atOperation index name source) →
      (∀ name, failure ≠ .outputNotProduced name) →
        (e.run c = .error (.failed failure) ↔ e.seed c = .error (.failed failure))) ∧
    ∀ failure, e.seed c = .error (.failed failure) ↔
      ∃ before name input after, c.inputs.entries = before ++ (name, input) :: after ∧
        (∀ entry ∈ before, ∃ x, e.inputTensor entry.1 entry.2 = .ok x) ∧
          e.inputTensor name input = .error (.failed failure) := by
  refine ⟨?_, ?_, ?_, ?_⟩
  · exact fun _ _ _ => run_eq_failed_atOperation
  · exact fun _ => run_eq_failed_outputNotProduced
  · exact fun _ hoperation houtput => run_eq_failed_iff_seed hoperation houtput
  · exact fun _ => seed_eq_error

end Evaluator

/-- An input that an operation binds anew, and a product with a name that nothing binds. -/
def Case.rebinding : Case where
  inputs := Bindings.empty.insert "x" ⟨.i32, [2], none, none⟩
  operations := [
    ⟨"arith.addi", ["x", "x"], ["x"], .empty, some "double"⟩,
    ⟨"arith.muli", ["x", "w"], ["y"], .empty, none⟩]
  outputs := ["y"]

/-- Under a limit that holds the input the product fails, and under a smaller one the input does. -/
theorem Evaluator.run_rebinding :
    (Evaluator.standard 8).run .rebinding = .error (.failed (.atOperation 1 "arith.muli" (.missingOperand "w"))) ∧
      (Evaluator.standard 7).run .rebinding = .error (.failed (.overLimit [2] 8 7)) := by
  obtain ⟨hoperation, -, -, -⟩ := run_failure_origin (.standard 8) .rebinding
  obtain ⟨-, -, hinput, hseed⟩ := run_failure_origin (.standard 7) .rebinding
  constructor
  · exact (hoperation _ _ _).mpr ⟨_, _, rfl, rfl, rfl, .evaluation rfl⟩
  · refine (hinput _ ?_ ?_).mpr ((hseed _).mpr ⟨[], "x", _, [], rfl, List.forall_mem_nil _, rfl⟩)
    · exact fun _ _ _ h => nomatch h
    · exact fun _ h => nomatch h

end TensorEval
