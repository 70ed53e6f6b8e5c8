import TensorEval.Proofs.Kernel
import TensorEval.Proofs.Run.Replay
import TensorEval.Proofs.Tensor.Form

/-! The limit on tensors: it is checked before a tensor is made, against the size that the tensor then has. So of two
limits the smaller one admits the runs of the larger one that bind no larger tensor, and changes nothing in them. -/
namespace TensorEval
variable {limit limit' : Nat}

private theorem checked_iff_of_le (hle : limit ≤ limit') {shape : Shape} {type : ElementType} {x : Tensor} {made : Prop}
    (hform : made → x.form = (type, shape)) :
    checkSize limit shape type = .ok () ∧ made ↔
      (checkSize limit' shape type = .ok () ∧ made) ∧ x.byteLength ≤ limit := by
  rw [and_right_comm]
  refine and_congr_left fun hmade => ?_
  obtain ⟨rfl, rfl⟩ := Prod.mk.inj (hform hmade)
  exact Tensor.checkSize_iff_of_le hle x

namespace Kernel
variable {env : Environment} {op : Operation}

private theorem materialize_iff_of_le (hle : limit ≤ limit') {value : Attribute} {x : Tensor} :
    materialize limit value = .ok x ↔ materialize limit' value = .ok x ∧ x.byteLength ≤ limit := by
  simp only [materialize_eq_ok, ← exists_and_right, and_assoc]
  refine exists_congr fun shape => exists_congr fun type => exists_congr fun fill => and_congr_right fun _ => ?_
  rw [checked_iff_of_le hle Tensor.form_full, and_assoc]

private theorem combine_iff_of_le (hle : limit ≤ limit') {operator : Operator} {domain : Domain} {left right : String}
    {z : Tensor} : combine operator domain limit env op left right = .ok z ↔
      combine operator domain limit' env op left right = .ok z ∧ z.byteLength ≤ limit := by
  simp only [combine_eq_ok, ← exists_and_right, and_assoc]
  refine exists_congr fun x => and_congr_right fun _ => exists_congr fun y => ?_
  refine and_congr_right fun _ => and_congr_right fun _ => and_congr_right fun _ => ?_
  refine exists_congr fun shape => and_congr_right fun hshape => ?_
  have hform : x.binary operator y = .ok z → z.form = (x.resultType y, shape) := by
    intro hz
    obtain ⟨htype, hbroadcast⟩ := Tensor.form_binary hz
    rw [commonShape_eq_ok.mp hshape] at hbroadcast
    rw [Tensor.form, htype, ← Option.some.inj hbroadcast]
  rw [checked_iff_of_le hle hform, and_assoc]

private theorem evaluate_iff_of_le (hle : limit ≤ limit') {kernel : Kernel} {xs : List Tensor} :
    kernel.evaluate limit env op = .ok xs ↔ kernel.evaluate limit' env op = .ok xs ∧ ∀ x ∈ xs, x.byteLength ≤ limit := by
  have single {r r' : Outcome Tensor} (h : ∀ x, r = .ok x ↔ r' = .ok x ∧ x.byteLength ≤ limit) :
      (r >>= fun x => pure [x]) = .ok xs ↔ (r' >>= fun x => pure [x]) = .ok xs ∧ ∀ x ∈ xs, x.byteLength ≤ limit := by
    rw [except_bind_eq_ok, except_bind_eq_ok, ← exists_and_right]
    refine exists_congr fun x => ?_
    rw [h, and_assoc, and_assoc]
    refine and_congr_right fun _ => ?_
    constructor
    · rintro ⟨hx, hxs⟩
      obtain rfl := Except.ok.inj hxs
      exact ⟨hxs, List.forall_mem_singleton.mpr hx⟩
    · rintro ⟨hxs, hx⟩
      obtain rfl := Except.ok.inj hxs
      exact ⟨hx x List.mem_cons_self, hxs⟩
  unfold evaluate
  split
  · rw [except_bind_eq_ok, except_bind_eq_ok, ← exists_and_right]
    refine exists_congr fun value => ?_
    rw [and_assoc]
    exact and_congr_right fun _ => single fun _ => materialize_iff_of_le hle
  · refine single fun x => ?_
    rw [Outcome.ofExcept_eq_ok, Outcome.ofExcept_eq_ok]
    exact combine_iff_of_le hle
  · simp

end Kernel

theorem Registry.evaluate_iff_of_le (hle : limit ≤ limit') {registry : Registry} {env : Environment} {op : Operation}
    {xs : List Tensor} : registry.evaluate limit env op = .ok xs ↔
      registry.evaluate limit' env op = .ok xs ∧ ∀ x ∈ xs, x.byteLength ≤ limit := by
  unfold evaluate
  rw [except_bind_eq_ok, except_bind_eq_ok, ← exists_and_right]
  refine exists_congr fun kernel => ?_
  rw [and_assoc]
  exact and_congr_right fun _ => Kernel.evaluate_iff_of_le hle

namespace Evaluator
variable {registry : Registry} {env final : Environment} {op : Operation}

def Within (limit : Nat) (env : Environment) (names : List String) : Prop :=
  ∀ name ∈ names, ∀ x, env.get? name = some x → x.byteLength ≤ limit

private theorem within_append {names names' : List String} :
    Within limit env (names ++ names') ↔ Within limit env names ∧ Within limit env names' := List.forall_mem_append

private theorem within_flatMap {operations : List Operation} :
    Within limit env (operations.flatMap Operation.results) ↔ ∀ op ∈ operations, Within limit env op.results := by
  unfold Within
  simp only [List.mem_flatMap]
  exact ⟨fun h op hop name hname => h name ⟨op, hop, hname⟩, fun h name ⟨op, hop, hname⟩ => h op hop name hname⟩

private theorem within_iff_of_map_get? {names : List String} {xs : List Tensor} (h : names.map env.get? = xs.map some) :
    Within limit env names ↔ ∀ x ∈ xs, x.byteLength ≤ limit := by
  have hmem (x : Tensor) : x ∈ xs ↔ ∃ name ∈ names, env.get? name = some x := by
    rw [← List.mem_map, h, List.mem_map_of_injective (Option.some_injective _)]
  unfold Within
  simp only [hmem]
  exact ⟨fun h x ⟨name, hname, hx⟩ => h name hname x hx, fun h name hname x hx => h x ⟨name, hname, hx⟩⟩

private theorem satisfies_iff_of_le (hle : limit ≤ limit') :
    (Evaluator.mk registry limit).Satisfies env op ↔
      (Evaluator.mk registry limit').Satisfies env op ∧ Within limit env op.results := by
  unfold Satisfies
  rw [← exists_and_right]
  refine exists_congr fun xs => ?_
  rw [and_right_comm, Registry.evaluate_iff_of_le hle]
  exact and_congr_left fun h => and_congr_right fun _ => (within_iff_of_map_get? h).symm

private theorem inputTensor_iff_of_le (hle : limit ≤ limit') {name : String} {input : Input} {x : Tensor} :
    (Evaluator.mk registry limit).inputTensor name input = .ok x ↔
      (Evaluator.mk registry limit').inputTensor name input = .ok x ∧ x.byteLength ≤ limit := by
  unfold inputTensor
  rw [except_check_eq_ok, except_check_eq_ok, Outcome.ofExcept_eq_ok, Outcome.ofExcept_eq_ok]
  exact checked_iff_of_le hle Input.form_tensor

private theorem get?_bindInputs_of_notMem {e : Evaluator} {env' : Environment} {inputs : List (String × Input)}
    {key : String}
    (h : e.bindInputs env inputs = .ok env') (hkey : key ∉ inputs.map Prod.fst) : env'.get? key = env.get? key := by
  induction inputs generalizing env with
  | nil =>
    obtain rfl := Except.ok.inj h
    rfl
  | cons entry rest ih =>
    obtain ⟨hne, hrest⟩ := not_or.mp (List.mem_cons.not.mp hkey)
    obtain ⟨x, -, h⟩ := except_bind_eq_ok.mp h
    rw [ih h hrest, Bindings.get?_insert, if_neg hne]

private theorem bindInputs_iff_of_le (hle : limit ≤ limit') {inputs : List (String × Input)}
    (hdistinct : (inputs.map Prod.fst).Nodup) :
    (Evaluator.mk registry limit).bindInputs env inputs = .ok final ↔
      (Evaluator.mk registry limit').bindInputs env inputs = .ok final ∧ Within limit final (inputs.map Prod.fst) := by
  induction inputs generalizing env with
  | nil => simp [bindInputs, Within]
  | cons entry rest ih =>
    obtain ⟨name, input⟩ := entry
    obtain ⟨hname, hrest⟩ := List.nodup_cons.mp hdistinct
    unfold bindInputs
    rw [except_bind_eq_ok, except_bind_eq_ok, ← exists_and_right]
    refine exists_congr fun x => ?_
    rw [inputTensor_iff_of_le hle, ih hrest, and_assoc, and_assoc]
    refine and_congr_right fun _ => ?_
    rw [and_left_comm]
    refine and_congr_right fun hfinal => ?_
    -- The names of the other inputs are different, so the tensor is still there at the end.
    have hx : final.get? name = some x := by
      rw [get?_bindInputs_of_notMem hfinal hname]
      simp
    simp [Within, hx]

theorem seed_iff_of_le (hle : limit ≤ limit') {c : Case} :
    (Evaluator.mk registry limit).seed c = .ok env ↔
      (Evaluator.mk registry limit').seed c = .ok env ∧ Within limit env c.inputs.names :=
  bindInputs_iff_of_le hle c.inputs.names_nodup

private theorem within_iff_of_extends {names : List String} (hext : env.Extends final)
    (hnames : ∀ name ∈ names, name ∈ env.names) : Within limit env names ↔ Within limit final names := by
  unfold Within
  refine forall₂_congr fun name hname => ?_
  rw [hext.get?_eq (hnames name hname)]

private theorem within_names_iff {c : Case}
    (hnames : ∀ name, name ∈ final.names ↔ name ∈ c.inputs.names ++ c.operations.flatMap Operation.results) :
    Within limit final final.names ↔
      Within limit final c.inputs.names ∧ ∀ op ∈ c.operations, Within limit final op.results := by
  rw [← within_flatMap, ← within_append]
  exact forall_congr' fun name => imp_congr_left (hnames name)

/-- The limit shows in what a run leaves behind, since nothing that an accepted case binds is bound anew. -/
theorem run_iff_of_le (hle : limit ≤ limit') {c : Case} {wiring : Wiring} {run : Run}
    (h : c.validate registry = .ok wiring) :
    (Evaluator.mk registry limit).run c = .ok run ↔
      (Evaluator.mk registry limit').run c = .ok run ∧ Within limit run.environment run.environment.names := by
  constructor
  · intro hrun
    obtain ⟨seeded, hseeded, hext, hops, hnames, hcollect⟩ := satisfies_of_run (e := ⟨registry, limit⟩) h hrun
    have hinputs := (seed_sound c).of_ok hseeded
    obtain ⟨hseeded', hwithin⟩ := (seed_iff_of_le hle).mp hseeded
    rw [within_iff_of_extends hext fun name => (hinputs name).mp] at hwithin
    have hops' := fun op hop => (satisfies_iff_of_le hle).mp (hops op hop)
    refine ⟨?_, (within_names_iff hnames).mpr ⟨hwithin, fun op hop => (hops' op hop).2⟩⟩
    exact run_of_satisfies (e := ⟨registry, limit'⟩) h hseeded' hext (fun op hop => (hops' op hop).1)
      (fun name => (hnames name).mp) hcollect
  · rintro ⟨hrun, hwithin⟩
    obtain ⟨seeded, hseeded, hext, hops, hnames, hcollect⟩ := satisfies_of_run (e := ⟨registry, limit'⟩) h hrun
    have hinputs := (seed_sound c).of_ok hseeded
    obtain ⟨hwithin, hwithins⟩ := (within_names_iff hnames).mp hwithin
    rw [← within_iff_of_extends hext fun name => (hinputs name).mp] at hwithin
    exact run_of_satisfies (e := ⟨registry, limit⟩) h ((seed_iff_of_le hle).mpr ⟨hseeded, hwithin⟩) hext
      (fun op hop => (satisfies_iff_of_le hle).mpr ⟨hops op hop, hwithins op hop⟩)
      (fun name => (hnames name).mp) hcollect

/-- A run of an accepted case that a limit admits ends the same way under every larger limit. A run that the larger limit
admits is admitted by the smaller one exactly if no tensor in its environment takes more bytes than that. -/
theorem run_under_smaller_limit (registry : Registry) (c : Case) (wiring : Wiring) (limit limit' : Nat)
    (h : c.validate registry = .ok wiring) (hle : limit ≤ limit') :
    (∀ run, (Evaluator.mk registry limit).run c = .ok run → (Evaluator.mk registry limit').run c = .ok run) ∧
    ∀ run, (Evaluator.mk registry limit').run c = .ok run →
      ((∃ run', (Evaluator.mk registry limit).run c = .ok run') ↔
        ∀ name x, run.environment.get? name = some x → x.byteLength ≤ limit) := by
  refine ⟨fun run hrun => ((run_iff_of_le hle h).mp hrun).1, fun run hrun => ?_⟩
  constructor
  · rintro ⟨run', hrun'⟩ name x hx
    obtain ⟨hsame, hwithin⟩ := (run_iff_of_le hle h).mp hrun'
    obtain rfl : run' = run := Except.ok.inj (hsame.symm.trans hrun)
    exact hwithin name (Bindings.mem_names.mpr ⟨x, hx⟩) x hx
  · intro hwithin
    exact ⟨run, (run_iff_of_le hle h).mpr ⟨hrun, fun name _ => hwithin name⟩⟩

end Evaluator

theorem Evaluator.scaling_under_smaller_limit :
    Case.scaling.validate .standard = .ok Case.scaling.wiring ∧ 8 ≤ 9 ∧
      ∃ run, (Evaluator.standard 8).run .scaling = .ok run ∧ (Evaluator.standard 9).run .scaling = .ok run ∧
        ((∃ run', (Evaluator.standard 8).run .scaling = .ok run') ↔
          ∀ name x, run.environment.get? name = some x → x.byteLength ≤ 8) := by
  obtain ⟨hsame, hiff⟩ := run_under_smaller_limit .standard .scaling _ 8 9 rfl (by decide)
  exact ⟨rfl, by decide, _, rfl, hsame _ rfl, hiff _ (hsame _ rfl)⟩

end TensorEval
