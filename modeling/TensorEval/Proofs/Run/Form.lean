import TensorEval.Proofs.Run.View

/-! Element values decide nothing but element values: two runs from environments whose tensors have the same forms stop
for the same reason or keep to the same forms. -/
namespace TensorEval

def Environment.form (env : Environment) : Bindings (ElementType × Shape) := env.map Tensor.form

def Run.form (run : Run) : List (String × ElementType × Shape) × Bindings (ElementType × Shape) :=
  (run.outputs.map fun output => (output.1, output.2.form), run.environment.form)

variable {env env' : Environment}

private theorem Environment.form_insert (env : Environment) (name : String) (x : Tensor) :
    form (env.insert name x) = env.form.insert name x.form := Bindings.map_insert Tensor.form env name x

private theorem Tensor.respected_form : Respected form where
  form := id
  binary _ := binary_map_form

namespace Evaluator
variable {e : Evaluator}

private theorem inputTensor_map_form (name : String) {input input' : Input} (h : input.form = input'.form) :
    (e.inputTensor name input).map Tensor.form = (e.inputTensor name input').map Tensor.form := by
  have htype : input.type = input'.type := congrArg Prod.fst h
  have hshape : input.shape = input'.shape := congrArg (fun form => form.2.1) h
  unfold inputTensor
  rw [htype, hshape]
  exact except_bind_map_congr_right fun _ => Input.tensor_map_form h

private theorem bindInputs_map_form {inputs inputs' : List (String × Input)} (h : env.form = env'.form)
    (hinputs : inputs.map (fun entry => (entry.1, entry.2.form)) = inputs'.map fun entry => (entry.1, entry.2.form)) :
    (e.bindInputs env inputs).map Environment.form = (e.bindInputs env' inputs').map Environment.form := by
  induction inputs generalizing inputs' env env' with
  | nil =>
    obtain rfl : inputs' = [] := List.map_eq_nil_iff.mp hinputs.symm
    exact congrArg Except.ok h
  | cons entry rest ih =>
    obtain ⟨name, input⟩ := entry
    obtain ⟨⟨name', input'⟩, rest', rfl, hentry, hrest⟩ := List.map_eq_cons_iff.mp hinputs.symm
    obtain ⟨rfl, hinput⟩ := Prod.mk.inj hentry
    refine except_bind_map_congr (inputTensor_map_form _ hinput.symm) fun x x' hx => ih ?_ hrest.symm
    rw [Environment.form_insert, Environment.form_insert, h, hx]

/-- Runs of cases that differ in the elements of their inputs only fail alike, or their results have the same forms. -/
theorem run_map_form {c c' : Case} (hinputs : c.inputs.map Input.form = c'.inputs.map Input.form)
    (hoperations : c.operations = c'.operations) (houtputs : c.outputs = c'.outputs) :
    (e.run c).map Run.form = (e.run c').map Run.form := by
  have hentries : c.inputs.entries.map (fun entry => (entry.1, entry.2.form)) =
      c'.inputs.entries.map fun entry => (entry.1, entry.2.form) := congrArg Bindings.entries hinputs
  exact run_map_view Tensor.respected_form (bindInputs_map_form rfl hentries) hoperations houtputs

/-- Element values never decide how a run ends. Two cases whose inputs have the same names, types and shapes, and data of
the same kind and length, and which agree in everything else, either stop for the very same reason, or both run to
outputs of the same names, types and shapes in the same order and to environments of the same names, types and shapes. -/
theorem run_of_same_input_forms (e : Evaluator) (c c' : Case)
    (hinputs : c.inputs.map Input.form = c'.inputs.map Input.form)
    (hoperations : c.operations = c'.operations) (houtputs : c.outputs = c'.outputs) :
    (∃ stop, e.run c = .error stop ∧ e.run c' = .error stop) ∨
    ∃ run run', e.run c = .ok run ∧ e.run c' = .ok run' ∧
      run.outputs.map (fun output => (output.1, output.2.type, output.2.shape)) =
        run'.outputs.map (fun output => (output.1, output.2.type, output.2.shape)) ∧
      run.environment.map (fun x => (x.type, x.shape)) = run'.environment.map (fun x => (x.type, x.shape)) := by
  rcases except_map_eq_map.mp (run_map_form (e := e) hinputs hoperations houtputs) with hstop | ⟨run, run', hrun, hrun', h⟩
  · exact .inl hstop
  · obtain ⟨hpairs, henv⟩ := Prod.mk.inj h
    exact .inr ⟨run, run', hrun, hrun', hpairs, henv⟩

end Evaluator

def Case.scalingExtremes : Case :=
  { scaling with inputs := Bindings.empty.insert "x" ⟨.f32, [2], some [.nan .binary64, .infinite .binary64 true], none⟩ }

theorem Evaluator.run_scalingExtremes :
    Case.scaling.inputs.map Input.form = Case.scalingExtremes.inputs.map Input.form ∧
    Case.scaling.operations = Case.scalingExtremes.operations ∧ Case.scaling.outputs = Case.scalingExtremes.outputs ∧
    ((∃ stop, (Evaluator.standard 8).run .scaling = .error stop ∧
        (Evaluator.standard 8).run .scalingExtremes = .error stop) ∨
    ∃ run run', (Evaluator.standard 8).run .scaling = .ok run ∧ (Evaluator.standard 8).run .scalingExtremes = .ok run' ∧
      run.outputs.map (fun output => (output.1, output.2.type, output.2.shape)) =
        run'.outputs.map (fun output => (output.1, output.2.type, output.2.shape)) ∧
      run.environment.map (fun x => (x.type, x.shape)) = run'.environment.map (fun x => (x.type, x.shape))) :=
  ⟨rfl, rfl, rfl, run_of_same_input_forms (.standard 8) .scaling .scalingExtremes rfl rfl rfl⟩

end TensorEval
