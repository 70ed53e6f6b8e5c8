import TensorEval.Proofs.Case.WellFormed
import TensorEval.Proofs.Run.Progress

/-! The final environment of an accepted case: every name is bound once, and every operation,
evaluated again, gives what is bound under its results. -/
namespace TensorEval

def Environment.Extends (env env' : Environment) : Prop :=
  ∀ name x, env.get? name = some x → env'.get? name = some x

namespace Environment.Extends
variable {env env' env'' : Environment}

theorem refl (env : Environment) : Extends env env := fun _ _ h => h

theorem trans (h : Extends env env') (h' : Extends env' env'') : Extends env env'' :=
  fun name x hx => h' name x (h name x hx)

private theorem lookup {name : String} {x : Tensor} (h : Extends env env') (hx : env.lookup name = .ok x) :
    env'.lookup name = .ok x :=
  lookup_eq_ok.mpr (h name x (lookup_eq_ok.mp hx))

/-- Evaluation reads operands only, so what it gives it also gives where more is bound. -/
private theorem evaluate_eq_ok {registry : Registry} {limit : Nat} {op : Operation} {xs : List Tensor}
    (h : Extends env env') (hxs : registry.evaluate limit env op = .ok xs) :
    registry.evaluate limit env' op = .ok xs := by
  obtain ⟨kernel, hkernel, hxs⟩ := except_bind_eq_ok.mp hxs
  refine except_bind_eq_ok.mpr ⟨kernel, hkernel, ?_⟩
  unfold Kernel.evaluate at hxs ⊢
  split at hxs
  · exact hxs
  · rename_i operator domain left right
    obtain ⟨z, hz, hxs⟩ := except_bind_eq_ok.mp hxs
    refine except_bind_eq_ok.mpr ⟨z, ?_, hxs⟩
    rw [Outcome.ofExcept_eq_ok] at hz ⊢
    obtain ⟨x, hx, hz⟩ := except_bind_eq_ok.mp hz
    obtain ⟨y, hy, hz⟩ := except_bind_eq_ok.mp hz
    exact except_bind_eq_ok.mpr ⟨x, h.lookup hx, except_bind_eq_ok.mpr ⟨y, h.lookup hy, hz⟩⟩
  · exact hxs

private theorem map_get? {names : List String} {xs : List Tensor} (h : Extends env env')
    (hxs : names.map env.get? = xs.map some) : names.map env'.get? = xs.map some := by
  induction names generalizing xs with
  | nil => exact hxs
  | cons name rest ih =>
    cases xs with
    | nil => simp at hxs
    | cons x xs =>
      rw [List.map_cons, List.map_cons, List.cons.injEq] at hxs ⊢
      exact ⟨h name x hxs.1, ih hxs.2⟩

end Environment.Extends

namespace Evaluator
variable {e : Evaluator} {env env' : Environment} {op : Operation}

/-- The results of the operation are bound to the tensors that it evaluates to. -/
def Satisfies (e : Evaluator) (env : Environment) (op : Operation) : Prop :=
  ∃ xs, e.registry.evaluate e.limit env op = .ok xs ∧ op.results.map env.get? = xs.map some

theorem Satisfies.extends (h : e.Satisfies env op) (hext : env.Extends env') : e.Satisfies env' op := by
  obtain ⟨xs, hxs, hbound⟩ := h
  exact ⟨xs, hext.evaluate_eq_ok hxs, hext.map_get? hbound⟩

theorem stepResults_eq_ok {index : Nat} {xs : List Tensor} (h : e.stepResults index env op = .ok xs) :
    e.registry.evaluate e.limit env op = .ok xs ∧ xs.length = op.results.length := by
  obtain ⟨ys, hys, h⟩ := except_bind_eq_ok.mp (Outcome.atOperation_eq_ok.mp h)
  split at h
  · rename_i hlength
    obtain rfl : ys = xs := by simpa using h
    exact ⟨hys, hlength⟩
  · simp at h

private theorem extends_bind {names : List String} (hfresh : ∀ name ∈ names, name ∉ env.names) (xs : List Tensor) :
    env.Extends (bind env names xs) := by
  intro name x hx
  have hnot : name ∉ names := fun hmem => hfresh name hmem (Bindings.mem_names.mpr ⟨x, hx⟩)
  rw [get?_bind_of_notMem hnot, hx]

/-- A step of an accepted case changes no tensor that is bound, and afterwards its operation holds. -/
theorem step_satisfies {index : Nat} {xs : List Tensor} (hplaced : op.Placed e.registry env.names)
    (h : e.stepResults index env op = .ok xs) :
    env.Extends (bind env op.results xs) ∧ e.Satisfies (bind env op.results xs) op := by
  obtain ⟨heval, hlength⟩ := stepResults_eq_ok h
  have hext := extends_bind hplaced.fresh xs
  exact ⟨hext, xs, hext.evaluate_eq_ok heval, map_get?_bind hplaced.distinct hlength⟩

/-- All operations of an accepted case hold after its last step. -/
theorem steps_satisfies {index : Nat} {defined after : List String} {operations : List Operation}
    (hnames : ∀ name, name ∈ defined ↔ name ∈ env.names)
    (hchecked : Case.checkOperations e.registry index defined operations = .ok after)
    (h : e.steps index env operations = .ok env') :
    env.Extends env' ∧ ∀ op ∈ operations, e.Satisfies env' op := by
  induction operations generalizing index env defined with
  | nil =>
    obtain rfl : env = env' := by simpa [steps] using h
    exact ⟨.refl env, by simp⟩
  | cons op rest ih =>
    obtain ⟨hplaced, hrest⟩ := Case.checkOperations_cons.mp hchecked
    obtain ⟨xs, hxs, h⟩ := except_bind_eq_ok.mp h
    have hplaced' := hplaced.congr hnames
    obtain ⟨hext, hop⟩ := step_satisfies hplaced' hxs
    have hnames' := mem_defined_bind (stepResults_eq_ok hxs).2 hnames
    obtain ⟨hext', hops⟩ := ih hnames' hrest h
    exact ⟨hext.trans hext', List.forall_mem_cons.mpr ⟨hop.extends hext', hops⟩⟩

end Evaluator

/-- The defined names of an accepted case are its inputs and all results, each of them once. -/
theorem Case.checkOperations_defines {registry : Registry} {index : Nat} {defined after : List String}
    {operations : List Operation} (hdistinct : defined.Nodup)
    (h : checkOperations registry index defined operations = .ok after) :
    after.Nodup ∧ after.Perm (defined ++ operations.flatMap Operation.results) := by
  obtain ⟨hplaced, rfl⟩ := checkOperations_eq_ok.mp h
  have hperm : ((operations.flatMap Operation.results).reverse ++ defined).Perm
      (defined ++ operations.flatMap Operation.results) :=
    List.perm_append_comm.trans ((List.reverse_perm _).append_left defined)
  refine ⟨hperm.nodup_iff.mpr (List.nodup_append.mpr ⟨hdistinct, hplaced.nodup, ?_⟩), hperm⟩
  rintro name hname _ hmem rfl
  obtain ⟨op, hop, hresult⟩ := List.mem_flatMap.mp hmem
  exact hplaced.fresh op hop name hresult hname

/-- The final environment of an accepted case binds its inputs and all results and nothing else, no two of
these names coincide, every input still holds the tensor that it was given, and every operation evaluated
again in that environment gives the very tensors that are bound under its results. -/
theorem Evaluator.final_environment (e : Evaluator) (c : Case) (wiring : Wiring) (run : Run)
    (h : c.validate e.registry = .ok wiring) (hrun : e.run c = .ok run) :
    (c.inputs.names ++ c.operations.flatMap Operation.results).Nodup ∧
    run.environment.names.Perm (c.inputs.names ++ c.operations.flatMap Operation.results) ∧
    (∃ seeded, e.seed c = .ok seeded ∧
      ∀ name ∈ c.inputs.names, ∃ x, seeded.get? name = some x ∧ run.environment.get? name = some x) ∧
    ∀ op ∈ c.operations, ∃ xs, e.registry.evaluate e.limit run.environment op = .ok xs ∧
      op.results.map run.environment.get? = xs.map some := by
  obtain ⟨-, -, defined, hchecked, -⟩ := Case.validate_eq_ok h
  obtain ⟨seeded, hseeded, hrun⟩ := except_bind_eq_ok.mp hrun
  obtain ⟨env, hsteps, hrun⟩ := except_bind_eq_ok.mp hrun
  obtain ⟨outputs, -, hrun⟩ := except_bind_eq_ok.mp hrun
  obtain rfl : Run.mk outputs env = run := by simpa using hrun
  have hnames := (seed_sound c).of_ok hseeded
  have hnames' := (steps_sound hnames hchecked).of_ok hsteps
  obtain ⟨hext, hops⟩ := steps_satisfies hnames hchecked hsteps
  obtain ⟨hdistinct, hperm⟩ := Case.checkOperations_defines c.inputs.names_nodup hchecked
  have hsame : env.names.Perm defined :=
    (List.perm_ext_iff_of_nodup env.names_nodup hdistinct).mpr fun name => (hnames' name).symm
  refine ⟨hperm.nodup_iff.mp hdistinct, hsame.trans hperm, ⟨seeded, hseeded, ?_⟩, hops⟩
  intro name hname
  obtain ⟨x, hx⟩ := Bindings.mem_names.mp ((hnames name).mp hname)
  exact ⟨x, hx, hext name x hx⟩

theorem Evaluator.final_environment_doubling :
    ∃ run, Case.doubling.validate .standard = .ok Case.doubling.wiring ∧
      (Evaluator.standard 8).run .doubling = .ok run ∧
      ["x", "c", "y"].Nodup ∧ run.environment.names.Perm ["x", "c", "y"] ∧
      (∃ seeded, (Evaluator.standard 8).seed .doubling = .ok seeded ∧
        ∀ name ∈ ["x"], ∃ x, seeded.get? name = some x ∧ run.environment.get? name = some x) ∧
      ∀ op ∈ Case.doubling.operations, ∃ xs, Registry.standard.evaluate 8 run.environment op = .ok xs ∧
        op.results.map run.environment.get? = xs.map some :=
  ⟨_, rfl, rfl, final_environment (.standard 8) .doubling _ _ rfl rfl⟩

end TensorEval
