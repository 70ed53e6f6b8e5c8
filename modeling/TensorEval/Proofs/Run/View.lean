import TensorEval.Proofs.Run.Replay
import TensorEval.Proofs.Tensor.Form

/-! Runs as they are seen through a view of tensors. If the view includes the forms of tensors, and operators take what is
seen of their operands to what is seen of their results, then runs from environments that look the same stop for the same
reason or keep to environments that look the same. -/
namespace TensorEval

/-- A view of tensors that tells their forms, and in which the result of an operator depends on what is seen of its
operands. -/
structure Tensor.Respected {β : Type} (view : Tensor → β) : Prop where
  form : ∀ {x y : Tensor}, view x = view y → x.form = y.form
  binary : ∀ (op : Operator) {x x' y y' : Tensor}, view x = view x' → view y = view y' →
    (x.binary op y).map view = (x'.binary op y').map view

def Run.seen {β : Type} (view : Tensor → β) (run : Run) : List (String × β) × Bindings β :=
  (run.outputs.map fun output => (output.1, view output.2), run.environment.map view)

variable {β : Type} {view : Tensor → β} {env env' : Environment}

private theorem Environment.get?_map_view (h : env.map view = env'.map view) (name : String) :
    (env.get? name).map view = (env'.get? name).map view := by
  rw [← Bindings.get?_map, ← Bindings.get?_map, h]

private theorem Environment.lookup_map_view (h : env.map view = env'.map view) (name : String) :
    (env.lookup name).map view = (env'.lookup name).map view := by
  have hget := get?_map_view h name
  unfold lookup
  cases hx : env.get? name <;> cases hx' : env'.get? name <;> simp_all

section Kernel
variable (hview : Tensor.Respected view)
include hview

private theorem Kernel.combine_map_view (operator : Operator) (domain : Domain) (limit : Nat) (op : Operation)
    (left right : String) (h : env.map view = env'.map view) :
    (combine operator domain limit env op left right).map view =
      (combine operator domain limit env' op left right).map view := by
  refine except_bind_map_congr (Environment.lookup_map_view h left) fun x x' hx => ?_
  refine except_bind_map_congr (Environment.lookup_map_view h right) fun y y' hy => ?_
  have hdomain {z z' : Tensor} (name : String) (hz : z.form = z'.form) :
      checkDomain op domain name z = checkDomain op domain name z' := by
    have htype : z.type = z'.type := congrArg Prod.fst hz
    rw [checkDomain, checkDomain, htype]
  have hshape : commonShape x y = commonShape x' y' := by
    have hx_shape : x.shape = x'.shape := congrArg Prod.snd (hview.form hx)
    have hy_shape : y.shape = y'.shape := congrArg Prod.snd (hview.form hy)
    rw [commonShape, commonShape, hx_shape, hy_shape]
  rw [hdomain left (hview.form hx), hdomain right (hview.form hy), hshape,
    Tensor.resultType_of_form (hview.form hx) (hview.form hy)]
  exact except_bind_map_congr_right fun _ => except_bind_map_congr_right fun _ => except_bind_map_congr_right fun _ =>
    except_bind_map_congr_right fun _ => hview.binary operator hx hy

private theorem Kernel.evaluate_map_view (kernel : Kernel) (limit : Nat) (op : Operation)
    (h : env.map view = env'.map view) :
    (kernel.evaluate limit env op).map (List.map view) = (kernel.evaluate limit env' op).map (List.map view) := by
  unfold evaluate
  split
  · rfl
  · rename_i operator domain left right _
    have hcombine := combine_map_view hview operator domain limit op left right h
    exact except_bind_map_congr (except_mapError_map_congr (f := Stop.failed) hcombine) fun x x' hx =>
      congrArg (fun seen => Except.ok [seen]) hx
  · rfl

theorem Registry.evaluate_map_view (registry : Registry) (limit : Nat) (op : Operation)
    (h : env.map view = env'.map view) :
    (registry.evaluate limit env op).map (List.map view) = (registry.evaluate limit env' op).map (List.map view) :=
  except_bind_map_congr_right fun kernel => kernel.evaluate_map_view hview limit op h

end Kernel

namespace Evaluator
variable {e : Evaluator}

private theorem map_bind (view : Tensor → β) (env : Environment) (names : List String) (xs : List Tensor) :
    (bind env names xs).map view =
      (names.zip (xs.map view)).foldl (fun seen (name, x) => seen.insert name x) (env.map view) := by
  induction names generalizing env xs with
  | nil => rfl
  | cons name rest ih =>
    cases xs with
    | nil => rfl
    | cons x xs =>
      rw [List.map_cons, List.zip_cons_cons, List.foldl_cons]
      rw [bind_cons, ih, Bindings.map_insert]

private theorem collect_map_view (outputs : List String) (h : env.map view = env'.map view) :
    (collect env outputs).map (List.map fun output => (output.1, view output.2)) =
      (collect env' outputs).map (List.map fun output => (output.1, view output.2)) := by
  refine except_mapM_map_congr fun name => ?_
  have hget := Environment.get?_map_view h name
  cases hx : env.get? name <;> cases hx' : env'.get? name <;> simp_all

section Steps
variable (hview : Tensor.Respected view)
include hview

theorem stepResults_map_view (index : Nat) (op : Operation) (h : env.map view = env'.map view) :
    (e.stepResults index env op).map (List.map view) = (e.stepResults index env' op).map (List.map view) := by
  have hevaluate := e.registry.evaluate_map_view hview e.limit op h
  refine except_mapError_map_congr (except_bind_map_congr hevaluate fun xs xs' hxs => ?_)
  have hlength : xs.length = xs'.length := by simpa using congrArg List.length hxs
  rw [hlength]
  split
  · exact congrArg Except.ok hxs
  · rfl

/-- Steps from environments that look the same stop for the same reason or end in environments that look the same. -/
theorem steps_map_view (index : Nat) (operations : List Operation) (h : env.map view = env'.map view) :
    (e.steps index env operations).map (Bindings.map view) =
      (e.steps index env' operations).map (Bindings.map view) := by
  induction operations generalizing index env env' with
  | nil => exact congrArg Except.ok h
  | cons op rest ih =>
    refine except_bind_map_congr (stepResults_map_view hview index op h) fun xs xs' hxs => ih (index + 1) ?_
    rw [map_bind, map_bind, hxs, h]

/-- Runs of the same operations fail alike or look the same, if their inputs are bound alike. -/
theorem run_map_view {c c' : Case} (hseed : (e.seed c).map (Bindings.map view) = (e.seed c').map (Bindings.map view))
    (hoperations : c.operations = c'.operations) (houtputs : c.outputs = c'.outputs) :
    (e.run c).map (Run.seen view) = (e.run c').map (Run.seen view) := by
  unfold run
  rw [hoperations, houtputs]
  refine except_bind_map_congr hseed fun seeded seeded' hseeded => ?_
  refine except_bind_map_congr (steps_map_view hview 0 c'.operations hseeded) fun env env' henv => ?_
  refine except_bind_map_congr (except_mapError_map_congr (collect_map_view c'.outputs henv)) fun pairs pairs' hpairs => ?_
  exact congrArg Except.ok (Prod.ext hpairs henv)

end Steps

end Evaluator

end TensorEval
