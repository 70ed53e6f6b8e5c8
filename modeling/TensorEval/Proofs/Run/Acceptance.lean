import TensorEval.Proofs.Kernel
import TensorEval.Proofs.Run.Replay

/-! Cases that run are accepted, if they bind no name twice: every rule that the checks enforce is one that a run has
obeyed, so of the cases that run the checks refuse only those without operations or outputs and those that bind anew. -/
namespace TensorEval
variable {e : Evaluator} {env env' : Environment} {op : Operation} {xs : List Tensor}

namespace Kernel
variable {kernel : Kernel} {limit : Nat}

private theorem fits_of_evaluate (h : kernel.evaluate limit env op = .ok xs) (hlength : xs.length = op.results.length) :
    op.Fits kernel := by
  rcases evaluate_eq_ok.mp h with ⟨rfl, hoperands, value, x, hvalue, -, rfl⟩ | ⟨_, _, _, _, z, rfl, hoperands, -, rfl⟩
  · have hattribute : op.attributes.contains valueName = true := by rw [Bindings.contains, hvalue, Option.isSome_some]
    exact ⟨by rw [hoperands]; rfl, hlength.symm, List.forall_mem_singleton.mpr hattribute⟩
  · exact ⟨by rw [hoperands]; rfl, hlength.symm, List.forall_mem_nil _⟩

private theorem ready_of_evaluate (h : kernel.evaluate limit env op = .ok xs) :
    ∀ name ∈ op.operands, name ∈ env.names := by
  rcases evaluate_eq_ok.mp h with ⟨-, hoperands, -⟩ | ⟨operator, domain, left, right, z, -, hoperands, hz, -⟩
  · rw [hoperands]
    exact List.forall_mem_nil _
  · obtain ⟨x, hx, y, hy, -⟩ := combine_eq_ok.mp hz
    have hbound {name : String} {z : Tensor} (hz : env.lookup name = .ok z) : name ∈ env.names :=
      Bindings.mem_names.mpr ⟨z, Environment.lookup_eq_ok.mp hz⟩
    rw [hoperands]
    exact List.forall_mem_cons.mpr ⟨hbound hx, List.forall_mem_singleton.mpr (hbound hy)⟩

end Kernel

namespace Evaluator

private theorem placed_of_step {index : Nat} (h : e.stepResults index env op = .ok xs)
    (hfresh : ∀ name ∈ op.results, name ∉ env.names) (hdistinct : op.results.Nodup) :
    op.Placed e.registry env.names := by
  obtain ⟨heval, hlength⟩ := stepResults_eq_ok h
  obtain ⟨kernel, hkernel, heval⟩ := except_bind_eq_ok.mp heval
  have hknown := Registry.lookup_eq_ok.mp (Outcome.ofExcept_eq_ok.mp hkernel)
  exact ⟨⟨kernel, hknown, Kernel.fits_of_evaluate heval hlength⟩, Kernel.ready_of_evaluate heval, hfresh, hdistinct⟩

/-- Operations that run and bind no name twice pass the checks, and the names defined after them are those that are
bound. -/
private theorem checkOperations_of_steps {index : Nat} {defined : List String} {operations : List Operation}
    (hnames : ∀ name, name ∈ defined ↔ name ∈ env.names)
    (hdistinct : (defined ++ operations.flatMap Operation.results).Nodup)
    (h : e.steps index env operations = .ok env') :
    ∃ after, Case.checkOperations e.registry index defined operations = .ok after ∧
      ∀ name, name ∈ after ↔ name ∈ env'.names := by
  induction operations generalizing index env defined with
  | nil =>
    obtain rfl : env = env' := Except.ok.inj h
    exact ⟨defined, rfl, hnames⟩
  | cons op rest ih =>
    obtain ⟨xs, hxs, h⟩ := except_bind_eq_ok.mp h
    rw [List.flatMap_cons, ← List.append_assoc] at hdistinct
    obtain ⟨-, hresults, hapart⟩ := List.nodup_append.mp (List.nodup_append.mp hdistinct).1
    have hfresh : ∀ name ∈ op.results, name ∉ env.names :=
      fun name hname hmem => hapart name ((hnames name).mpr hmem) name hname rfl
    have hplaced := (placed_of_step hxs hfresh hresults).congr fun name => (hnames name).symm
    have hnames' := mem_defined_bind (stepResults_eq_ok hxs).2 hnames
    have hperm : (defined ++ op.results).Perm (op.results.reverse ++ defined) :=
      List.perm_append_comm.trans ((List.reverse_perm op.results).symm.append_right defined)
    obtain ⟨after, hafter, hsame⟩ := ih hnames' ((hperm.append_right _).nodup_iff.mp hdistinct) h
    exact ⟨after, Case.checkOperations_cons.mpr ⟨hplaced, hafter⟩, hsame⟩

/-- Of the cases that run, the checks accept those with operations and outputs that bind no name twice, and no others:
no input name, and no name of another result. So the checks refuse no such case that can be run, whatever the known kinds
and the limit are. -/
theorem accepted_iff_of_run (registry : Registry) (limit : Nat) (c : Case) (run : Run)
    (hrun : (Evaluator.mk registry limit).run c = .ok run) :
    (∃ wiring, c.validate registry = .ok wiring) ↔ c.operations ≠ [] ∧ c.outputs ≠ [] ∧
      (c.operations.flatMap Operation.results).Nodup ∧
      ∀ name ∈ c.operations.flatMap Operation.results, name ∉ c.inputs.names := by
  have hsplit : (c.inputs.names ++ c.operations.flatMap Operation.results).Nodup ↔
      (c.operations.flatMap Operation.results).Nodup ∧
        ∀ name ∈ c.operations.flatMap Operation.results, name ∉ c.inputs.names := by
    rw [List.nodup_append]
    simp only [c.inputs.names_nodup, true_and]
    exact and_congr_right fun _ => ⟨fun h name hname hmem => h name hmem name hname rfl,
      fun h name hmem _ hname heq => h name (heq ▸ hname) hmem⟩
  rw [← hsplit]
  constructor
  · rintro ⟨wiring, h⟩
    obtain ⟨hoperations, houtputs, defined, hchecked, -⟩ := Case.validate_eq_ok h
    obtain ⟨hdistinct, hperm⟩ := Case.checkOperations_defines c.inputs.names_nodup hchecked
    exact ⟨hoperations, houtputs, hperm.nodup_iff.mp hdistinct⟩
  · rintro ⟨hoperations, houtputs, hdistinct⟩
    obtain ⟨seeded, hseeded, hsteps, hcollect⟩ := run_eq_ok.mp hrun
    have hinputs := (seed_sound c).of_ok hseeded
    obtain ⟨defined, hchecked, hsame⟩ := checkOperations_of_steps hinputs hdistinct hsteps
    obtain ⟨hnames, hbound⟩ := collect_eq_ok.mp hcollect
    refine ⟨c.wiring, Case.validate_of_checks hoperations houtputs hchecked fun name hname => (hsame name).mpr ?_⟩
    rw [← hnames] at hname
    obtain ⟨pair, hpair, rfl⟩ := List.mem_map.mp hname
    exact Bindings.mem_names.mpr ⟨pair.2, hbound pair hpair⟩

theorem scaling_accepted_of_run :
    ∃ run, (Evaluator.mk .standard 8).run .scaling = .ok run ∧ Case.scaling.operations ≠ [] ∧
      Case.scaling.outputs ≠ [] ∧ (Case.scaling.operations.flatMap Operation.results).Nodup ∧
      (∀ name ∈ Case.scaling.operations.flatMap Operation.results, name ∉ Case.scaling.inputs.names) ∧
      ∃ wiring, Case.scaling.validate .standard = .ok wiring := by
  have hoperations : Case.scaling.operations ≠ [] := List.cons_ne_nil _ _
  have houtputs : Case.scaling.outputs ≠ [] := List.cons_ne_nil _ _
  have hdistinct : (Case.scaling.operations.flatMap Operation.results).Nodup := by decide
  have hfresh : ∀ name ∈ Case.scaling.operations.flatMap Operation.results, name ∉ Case.scaling.inputs.names := by decide
  exact ⟨_, rfl, hoperations, houtputs, hdistinct, hfresh,
    (accepted_iff_of_run .standard 8 .scaling _ rfl).mpr ⟨hoperations, houtputs, hdistinct, hfresh⟩⟩

end Evaluator

end TensorEval
