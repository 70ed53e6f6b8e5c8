import TensorEval.Proofs.Run.Replay

/-! The outputs of a case depend on the operations that lead to them and on nothing else: operations that contain the
producer of whatever they read pass the checks without the others, and they bind what the whole case binds. -/
namespace TensorEval

namespace Case
variable {registry : Registry} {index index' : Nat} {defined defined' after : List String}
  {operations kept : List Operation}

/-- Some operations of a case, in their order, that contain the producer of every output and of every operand of one of
them, unless that is an input. -/
structure IsSlice (c : Case) (kept : List Operation) : Prop where
  sublist : kept.Sublist c.operations
  outputs : ∀ name ∈ c.outputs, name ∉ c.inputs.names → ∃ producer ∈ kept, name ∈ producer.results
  operands : ∀ op ∈ kept, ∀ name ∈ op.operands, name ∉ c.inputs.names → ∃ producer ∈ kept, name ∈ producer.results

/-- Operations kept from checked ones pass the checks if what they read is defined before them or bound by one of them.
Fewer names are defined before each of them, but none that it reads is missing: a later operation that binds it would
bind it anew. -/
theorem checkOperations_sublist (hkept : kept.Sublist operations)
    (hchecked : checkOperations registry index defined operations = .ok after)
    (hfewer : ∀ name ∈ defined', name ∈ defined)
    (hneeded : ∀ op ∈ kept, ∀ name ∈ op.operands, name ∈ defined' ∨ ∃ producer ∈ kept, name ∈ producer.results) :
    ∃ after', checkOperations registry index' defined' kept = .ok after' := by
  induction hkept generalizing index index' defined defined' with
  | slnil => exact ⟨defined', rfl⟩
  | cons op _ ih =>
    obtain ⟨-, hrest⟩ := checkOperations_cons.mp hchecked
    exact ih hrest (fun name hname => List.mem_append_right _ (hfewer name hname)) hneeded
  | @cons_cons kept rest op hkept ih =>
    obtain ⟨hplaced, hrest⟩ := checkOperations_cons.mp hchecked
    have hready : ∀ name ∈ op.operands, name ∈ defined' := by
      intro name hname
      rcases hneeded op List.mem_cons_self name hname with hdefined | ⟨producer, hproducer, hresult⟩
      · exact hdefined
      · have hfresh := (checkOperations_eq_ok.mp hchecked).1.fresh
        have hlater := hfresh producer ((hkept.cons_cons op).subset hproducer) name hresult
        exact absurd (hplaced.ready name hname) hlater
    have hplaced' : op.Placed registry defined' :=
      ⟨hplaced.known, hready, fun name hname hmem => hplaced.fresh name hname (hfewer name hmem), hplaced.distinct⟩
    have hfewer' : ∀ name ∈ op.results.reverse ++ defined', name ∈ op.results.reverse ++ defined := by
      intro name hname
      exact List.mem_append.mpr ((List.mem_append.mp hname).imp_right (hfewer name))
    have hneeded' : ∀ op' ∈ kept, ∀ name ∈ op'.operands,
        name ∈ op.results.reverse ++ defined' ∨ ∃ producer ∈ kept, name ∈ producer.results := by
      intro op' hop' name hname
      rw [List.mem_append, List.mem_reverse]
      rcases hneeded op' (List.mem_cons_of_mem op hop') name hname with hdefined | ⟨producer, hproducer, hresult⟩
      · exact .inl (.inr hdefined)
      · rcases List.mem_cons.mp hproducer with rfl | hproducer
        · exact .inl (.inl hresult)
        · exact .inr ⟨producer, hproducer, hresult⟩
    obtain ⟨after', hafter⟩ :
        ∃ after', checkOperations registry (index' + 1) (op.results.reverse ++ defined') kept = .ok after' :=
      ih hrest hfewer' hneeded'
    exact ⟨after', checkOperations_cons.mpr ⟨hplaced', hafter⟩⟩

private theorem IsSlice.checkOperations {c : Case} (hslice : c.IsSlice kept)
    (hchecked : Case.checkOperations registry 0 c.inputs.names c.operations = .ok after) :
    ∃ after', Case.checkOperations registry 0 c.inputs.names kept = .ok after' := by
  refine checkOperations_sublist hslice.sublist hchecked (fun _ h => h) fun op hop name hname => ?_
  by_cases hinput : name ∈ c.inputs.names
  · exact .inl hinput
  · exact .inr (hslice.operands op hop name hname hinput)

end Case

namespace Evaluator
variable {e : Evaluator} {env final : Environment}

private theorem collect_of_extends {outputs : List String} {pairs : List (String × Tensor)} (hext : env.Extends final)
    (hbound : ∀ name ∈ outputs, name ∈ env.names) (h : collect final outputs = .ok pairs) :
    collect env outputs = .ok pairs := by
  obtain ⟨hnames, hfinal⟩ := collect_eq_ok.mp h
  refine collect_eq_ok.mpr ⟨hnames, fun pair hpair => ?_⟩
  rw [hext.get?_eq (hbound pair.1 (hnames ▸ List.mem_map_of_mem hpair))]
  exact hfinal pair hpair

/-- Operations of an accepted case that runs give the same outputs without the others, if they contain the producer of
every output and of every operand of one of them. Whatever else they bind is bound to the same tensor by the whole case. -/
theorem run_slice (e : Evaluator) (c : Case) (wiring : Wiring) (run : Run) (kept : List Operation)
    (h : c.validate e.registry = .ok wiring) (hrun : e.run c = .ok run) (hslice : c.IsSlice kept) :
    ∃ run', e.run { c with operations := kept } = .ok run' ∧ run'.outputs = run.outputs ∧
      run'.environment.Extends run.environment := by
  obtain ⟨-, -, defined, hchecked, -⟩ := Case.validate_eq_ok h
  obtain ⟨seeded, hseeded, hext, hops, -, hcollect⟩ := satisfies_of_run h hrun
  have hinputs := (seed_sound c).of_ok hseeded
  obtain ⟨after, hkept⟩ := hslice.checkOperations hchecked
  have hops' : ∀ op ∈ kept, e.Satisfies run.environment op := fun op hop => hops op (hslice.sublist.subset hop)
  obtain ⟨env, hsteps, hext'⟩ := steps_of_satisfies hinputs hkept hext hops'
  have hnames := mem_names_steps c.inputs.names_nodup hinputs hkept hsteps
  have hbound : ∀ name ∈ c.outputs, name ∈ env.names := by
    intro name hname
    rw [hnames, List.mem_append, List.mem_flatMap]
    by_cases hinput : name ∈ c.inputs.names
    · exact .inl hinput
    · exact .inr (hslice.outputs name hname hinput)
  exact ⟨⟨run.outputs, env⟩, run_eq_ok.mpr ⟨seeded, hseeded, hsteps, collect_of_extends hext' hbound hcollect⟩, rfl, hext'⟩

end Evaluator

def Case.scalingSum : Case := { scaling with outputs := ["sum", "x"] }

def Case.sumOnly : List Operation := (scalingSum.operations.drop 1).take 1

theorem Evaluator.run_sumOnly :
    Case.scalingSum.validate .standard = .ok Case.scalingSum.wiring ∧ Case.scalingSum.IsSlice Case.sumOnly ∧
      ∃ run, (Evaluator.standard 8).run .scalingSum = .ok run ∧
        ∃ run', (Evaluator.standard 8).run { Case.scalingSum with operations := Case.sumOnly } = .ok run' ∧
          run'.outputs = run.outputs ∧ run'.environment.Extends run.environment := by
  have hslice : Case.scalingSum.IsSlice Case.sumOnly :=
    ⟨(List.take_sublist _ _).trans (List.drop_sublist _ _), by decide, by decide⟩
  exact ⟨rfl, hslice, _, rfl, run_slice (.standard 8) .scalingSum _ _ _ rfl rfl hslice⟩

end TensorEval
