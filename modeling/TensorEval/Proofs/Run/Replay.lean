import TensorEval.Proofs.Run.Equations

/-! Runs replayed against a final environment: where that environment satisfies every operation, the operations can be
evaluated in any order that the checks accept, and they bind nothing else. So the order of the operations in a case does
not matter. -/
namespace TensorEval

/-- Evaluation reads nothing but the operands. -/
theorem Registry.evaluate_congr {registry : Registry} {limit : Nat} {env env' : Environment} {op : Operation}
    (h : ∀ name ∈ op.operands, env.get? name = env'.get? name) :
    registry.evaluate limit env op = registry.evaluate limit env' op := by
  refine congrArg _ (funext fun kernel => ?_)
  unfold Kernel.evaluate
  split
  · rfl
  · rename_i left right hoperands
    rw [hoperands] at h
    simp only [Kernel.combine, Environment.lookup, h left (by simp), h right (by simp)]
  · rfl

namespace Environment.Extends
variable {env env' : Environment}

/-- Names that are bound already hold the same tensors in a larger environment. -/
theorem get?_eq {name : String} (h : Extends env env') (hname : name ∈ env.names) : env.get? name = env'.get? name := by
  obtain ⟨x, hx⟩ := Bindings.mem_names.mp hname
  rw [hx, h name x hx]

private theorem eq_of_names (h : Extends env env') (hnames : ∀ name, name ∈ env'.names → name ∈ env.names) :
    env = env' := by
  refine Bindings.ext_get? fun name => ?_
  by_cases hname : name ∈ env.names
  · exact h.get?_eq hname
  · have hnone {b : Environment} (hb : name ∉ b.names) : b.get? name = none := by
      cases hx : b.get? name with
      | none => rfl
      | some x => exact absurd (Bindings.mem_names.mpr ⟨x, hx⟩) hb
    rw [hnone hname, hnone fun hname' => hname (hnames name hname')]

end Environment.Extends

namespace Evaluator
variable {e : Evaluator} {env final : Environment} {op : Operation}

private theorem stepResults_of_evaluate {index : Nat} {xs : List Tensor}
    (h : e.registry.evaluate e.limit env op = .ok xs)
    (hlength : xs.length = op.results.length) : e.stepResults index env op = .ok xs := by
  refine Outcome.atOperation_eq_ok.mpr (except_bind_eq_ok.mpr ⟨xs, h, ?_⟩)
  rw [if_pos hlength]
  rfl

private theorem bind_extends {names : List String} {xs : List Tensor} (hdistinct : names.Nodup)
    (hext : env.Extends final)
    (hbound : names.map final.get? = xs.map some) : (bind env names xs).Extends final := by
  have hlength : xs.length = names.length := by simpa using (congrArg List.length hbound).symm
  intro name x hx
  by_cases hname : name ∈ names
  · have hsame : names.map (bind env names xs).get? = xs.map some := map_get?_bind hdistinct hlength
    rw [← List.map_inj_left.mp (hsame.trans hbound.symm) name hname, hx]
  · rw [get?_bind_of_notMem hname] at hx
    exact hext name x hx

/-- Below an environment in which an operation holds, its step binds what that environment holds. -/
theorem step_of_satisfies (index : Nat) (hplaced : op.Placed e.registry env.names) (hext : env.Extends final)
    (hop : e.Satisfies final op) :
    ∃ xs, e.stepResults index env op = .ok xs ∧ (bind env op.results xs).Extends final := by
  obtain ⟨xs, heval, hbound⟩ := hop
  have hlength : xs.length = op.results.length := by simpa using (congrArg List.length hbound).symm
  have hoperands : ∀ name ∈ op.operands, env.get? name = final.get? name :=
    fun name hname => hext.get?_eq (hplaced.ready name hname)
  rw [← Registry.evaluate_congr hoperands] at heval
  exact ⟨xs, stepResults_of_evaluate heval hlength, bind_extends hplaced.distinct hext hbound⟩

/-- Operations that hold in a final environment run there from below, in any order that the checks accept. -/
theorem steps_of_satisfies {index : Nat} {defined after : List String} {operations : List Operation}
    (hnames : ∀ name, name ∈ defined ↔ name ∈ env.names)
    (hchecked : Case.checkOperations e.registry index defined operations = .ok after)
    (hext : env.Extends final) (hops : ∀ op ∈ operations, e.Satisfies final op) :
    ∃ env', e.steps index env operations = .ok env' ∧ env'.Extends final := by
  induction operations generalizing index env defined with
  | nil => exact ⟨env, rfl, hext⟩
  | cons op rest ih =>
    obtain ⟨hplaced, hrest⟩ := Case.checkOperations_cons.mp hchecked
    obtain ⟨hop, hops⟩ := List.forall_mem_cons.mp hops
    obtain ⟨xs, hxs, hext'⟩ := step_of_satisfies index (hplaced.congr hnames) hext hop
    have hnames' := mem_defined_bind (stepResults_eq_ok hxs).2 hnames
    obtain ⟨env', hsteps, hext''⟩ := ih hnames' hrest hext' hops
    exact ⟨env', except_bind_eq_ok.mpr ⟨xs, hxs, hsteps⟩, hext''⟩

/-- The names that the steps of an accepted case leave bound. -/
theorem mem_names_steps {env' : Environment} {index : Nat} {defined after : List String} {operations : List Operation}
    (hdistinct : defined.Nodup) (hnames : ∀ name, name ∈ defined ↔ name ∈ env.names)
    (hchecked : Case.checkOperations e.registry index defined operations = .ok after)
    (h : e.steps index env operations = .ok env') (name : String) :
    name ∈ env'.names ↔ name ∈ defined ++ operations.flatMap Operation.results := by
  rw [← (steps_sound hnames hchecked).of_ok h name]
  exact (Case.checkOperations_defines hdistinct hchecked).2.mem_iff

theorem run_eq_ok {c : Case} {run : Run} :
    e.run c = .ok run ↔ ∃ seeded, e.seed c = .ok seeded ∧ e.steps 0 seeded c.operations = .ok run.environment ∧
      collect run.environment c.outputs = .ok run.outputs := by
  obtain ⟨outputs, environment⟩ := run
  constructor
  · intro h
    obtain ⟨seeded, hseeded, h⟩ := except_bind_eq_ok.mp h
    obtain ⟨env, hsteps, h⟩ := except_bind_eq_ok.mp h
    obtain ⟨pairs, hpairs, h⟩ := except_bind_eq_ok.mp h
    obtain ⟨rfl, rfl⟩ : pairs = outputs ∧ env = environment := by simpa using h
    exact ⟨seeded, hseeded, hsteps, Outcome.ofExcept_eq_ok.mp hpairs⟩
  · rintro ⟨seeded, hseeded, hsteps, hpairs⟩
    refine except_bind_eq_ok.mpr ⟨seeded, hseeded, except_bind_eq_ok.mpr ⟨environment, hsteps, ?_⟩⟩
    exact except_bind_eq_ok.mpr ⟨outputs, Outcome.ofExcept_eq_ok.mpr hpairs, rfl⟩

/-- An accepted case whose operations all hold in an environment of its names over the inputs runs to that
environment. -/
theorem run_of_satisfies {c : Case} {wiring : Wiring} {seeded : Environment} {outputs : List (String × Tensor)}
    (h : c.validate e.registry = .ok wiring) (hseeded : e.seed c = .ok seeded) (hext : seeded.Extends final)
    (hops : ∀ op ∈ c.operations, e.Satisfies final op)
    (hnames : ∀ name, name ∈ final.names → name ∈ c.inputs.names ++ c.operations.flatMap Operation.results)
    (houtputs : collect final c.outputs = .ok outputs) : e.run c = .ok ⟨outputs, final⟩ := by
  obtain ⟨-, -, defined, hchecked, -⟩ := Case.validate_eq_ok h
  have hinputs := (seed_sound c).of_ok hseeded
  obtain ⟨env, hsteps, hext'⟩ := steps_of_satisfies hinputs hchecked hext hops
  have hbound := mem_names_steps c.inputs.names_nodup hinputs hchecked hsteps
  obtain rfl : env = final := hext'.eq_of_names fun name hname => (hbound name).mpr (hnames name hname)
  exact run_eq_ok.mpr ⟨seeded, hseeded, hsteps, houtputs⟩

/-- What a run of an accepted case leaves behind: an environment over the inputs, of the names of the case, in which
every operation holds. -/
theorem satisfies_of_run {c : Case} {wiring : Wiring} {run : Run} (h : c.validate e.registry = .ok wiring)
    (hrun : e.run c = .ok run) :
    ∃ seeded, e.seed c = .ok seeded ∧ seeded.Extends run.environment ∧
      (∀ op ∈ c.operations, e.Satisfies run.environment op) ∧
      (∀ name, name ∈ run.environment.names ↔ name ∈ c.inputs.names ++ c.operations.flatMap Operation.results) ∧
      collect run.environment c.outputs = .ok run.outputs := by
  obtain ⟨-, -, defined, hchecked, -⟩ := Case.validate_eq_ok h
  obtain ⟨seeded, hseeded, hsteps, houtputs⟩ := run_eq_ok.mp hrun
  have hinputs := (seed_sound c).of_ok hseeded
  obtain ⟨hext, hops⟩ := steps_satisfies hinputs hchecked hsteps
  exact ⟨seeded, hseeded, hext, hops, mem_names_steps c.inputs.names_nodup hinputs hchecked hsteps, houtputs⟩

theorem run_of_perm {c c' : Case} {wiring wiring' : Wiring} {run : Run} (hinputs : c'.inputs = c.inputs)
    (houtputs : c'.outputs = c.outputs) (hperm : c'.operations.Perm c.operations)
    (h : c.validate e.registry = .ok wiring) (h' : c'.validate e.registry = .ok wiring')
    (hrun : e.run c = .ok run) : e.run c' = .ok run := by
  obtain ⟨seeded, hseeded, hext, hops, hnames, hcollect⟩ := satisfies_of_run h hrun
  have hseeded' : e.seed c' = .ok seeded := by rwa [seed, hinputs]
  refine run_of_satisfies h' hseeded' hext ?_ ?_ (houtputs ▸ hcollect)
  · exact fun op hop => hops op (hperm.mem_iff.mp hop)
  · intro name hname
    rw [hnames, List.mem_append] at hname
    rwa [hinputs, List.mem_append, (hperm.flatMap_right Operation.results).mem_iff]

/-- Two accepted cases that differ in the order of their operations only run alike: whatever run the one ends with, the
other ends with it, too, outputs and environment included, and so it fails exactly if the other fails. -/
theorem run_eq_ok_iff_of_perm (e : Evaluator) (c c' : Case) (wiring wiring' : Wiring) (hinputs : c'.inputs = c.inputs)
    (houtputs : c'.outputs = c.outputs) (hperm : c'.operations.Perm c.operations)
    (h : c.validate e.registry = .ok wiring) (h' : c'.validate e.registry = .ok wiring') (run : Run) :
    e.run c = .ok run ↔ e.run c' = .ok run :=
  ⟨run_of_perm hinputs houtputs hperm h h', run_of_perm hinputs.symm houtputs.symm hperm.symm h' h⟩

end Evaluator

namespace Case

private def two : Operation :=
  ⟨"arith.constant", [], ["two"],
    Bindings.empty.insert Kernel.valueName (.float (.ofBits .binary64 0x4000000000000000) .f32), none⟩

private def sum : Operation := ⟨"arith.addf", ["x", "x"], ["sum"], .empty, none⟩

private def product : Operation := ⟨"arith.mulf", ["two", "sum"], ["product"], .empty, none⟩

/-- The product of a constant and the sum of an input with itself. -/
def scaling : Case where
  inputs := Bindings.empty.insert "x" ⟨.f32, [2], some [.ofBits .binary64 0x3FF8000000000000, .zero .binary64 true], none⟩
  operations := [two, sum, product]
  outputs := ["product", "sum"]

def scalingReordered : Case := { scaling with operations := [sum, two, product] }

end Case

theorem Evaluator.run_scalingReordered :
    Case.scaling.validate .standard = .ok Case.scaling.wiring ∧
      Case.scalingReordered.validate .standard = .ok Case.scalingReordered.wiring ∧
      Case.scalingReordered.operations.Perm Case.scaling.operations ∧
      ∃ run, (Evaluator.standard 8).run .scaling = .ok run ∧ (Evaluator.standard 8).run .scalingReordered = .ok run :=
  ⟨rfl, rfl, .swap .., _, rfl,
    (run_eq_ok_iff_of_perm (.standard 8) .scaling .scalingReordered _ _ rfl rfl (.swap ..) rfl rfl _).mp rfl⟩

end TensorEval
