import TensorEval.Proofs.Bindings
import TensorEval.Proofs.Outcome
import TensorEval.Run.Basic

/-! What binding results changes: the bound names gain those of the results, and other names keep
their tensors. -/
namespace TensorEval.Evaluator
variable {env : Environment} {names : List String} {xs : List Tensor}

theorem bind_cons (env : Environment) (name : String) (names : List String) (x : Tensor) (xs : List Tensor) :
    bind env (name :: names) (x :: xs) = bind (env.insert name x) names xs := rfl

theorem mem_names_bind (hlength : xs.length = names.length) {key : String} :
    key ∈ (bind env names xs).names ↔ key ∈ names ∨ key ∈ env.names := by
  induction names generalizing env xs with
  | nil => simp [bind]
  | cons name rest ih =>
    cases xs with
    | nil => simp at hlength
    | cons x xs =>
      rw [bind_cons, ih (by simpa using hlength), Bindings.mem_names_insert, List.mem_cons]
      tauto

/-- The names that are defined after an operation are those that are bound after it, if they were so before. -/
theorem mem_defined_bind {defined : List String} (hlength : xs.length = names.length)
    (hnames : ∀ name, name ∈ defined ↔ name ∈ env.names) (key : String) :
    key ∈ names.reverse ++ defined ↔ key ∈ (bind env names xs).names := by
  rw [mem_names_bind hlength, List.mem_append, List.mem_reverse, hnames]

/-- Names that are not bound anew keep their tensors. -/
theorem get?_bind_of_notMem {key : String} (hkey : key ∉ names) : (bind env names xs).get? key = env.get? key := by
  induction names generalizing env xs with
  | nil => rfl
  | cons name rest ih =>
    cases xs with
    | nil => rfl
    | cons x xs =>
      obtain ⟨hne, hrest⟩ := not_or.mp (List.mem_cons.not.mp hkey)
      rw [bind_cons, ih hrest, Bindings.get?_insert, if_neg hne]

/-- Distinct names hold the tensors that were bound to them, in order. -/
theorem map_get?_bind (hdistinct : names.Nodup) (hlength : xs.length = names.length) :
    names.map (bind env names xs).get? = xs.map some := by
  induction names generalizing env xs with
  | nil => simp_all
  | cons name rest ih =>
    cases xs with
    | nil => simp at hlength
    | cons x xs =>
      obtain ⟨hnot, hrest⟩ := List.nodup_cons.mp hdistinct
      rw [List.map_cons, List.map_cons, bind_cons, ih hrest (by simpa using hlength), get?_bind_of_notMem hnot]
      simp

theorem collect_cons {name : String} {rest : List String} {pairs : List (String × Tensor)} :
    collect env (name :: rest) = .ok pairs ↔
      ∃ x pairs', env.get? name = some x ∧ collect env rest = .ok pairs' ∧ pairs = (name, x) :: pairs' := by
  unfold collect
  rw [List.mapM_cons]
  cases env.get? name with
  | none => simp
  | some x =>
    simp only [except_ok_bind, except_bind_eq_ok, except_pure, Except.ok.injEq]
    simp [eq_comm (b := pairs)]

/-- Collected outputs have the names that were asked for, and what they hold is what these names are bound to. -/
theorem collect_eq_ok {outputs : List String} {pairs : List (String × Tensor)} :
    collect env outputs = .ok pairs ↔ pairs.map Prod.fst = outputs ∧ ∀ pair ∈ pairs, env.get? pair.1 = some pair.2 := by
  induction outputs generalizing pairs with
  | nil => cases pairs <;> simp [collect]
  | cons name rest ih =>
    rw [collect_cons, List.map_eq_cons_iff]
    constructor
    · rintro ⟨x, pairs', hx, hrest, rfl⟩
      obtain ⟨hnames, hbound⟩ := ih.mp hrest
      exact ⟨⟨_, pairs', rfl, rfl, hnames⟩, List.forall_mem_cons.mpr ⟨hx, hbound⟩⟩
    · rintro ⟨⟨⟨_, x⟩, pairs', rfl, rfl, hnames⟩, hbound⟩
      obtain ⟨hx, hbound⟩ := List.forall_mem_cons.mp hbound
      exact ⟨x, pairs', hx, ih.mpr ⟨hnames, hbound⟩, rfl⟩

/-- Collecting fails as the first output that is not bound. -/
theorem collect_eq_error {outputs : List String} {failure : Failure} :
    collect env outputs = .error failure ↔ ∃ before name after, outputs = before ++ name :: after ∧
      (∀ other ∈ before, other ∈ env.names) ∧ name ∉ env.names ∧ failure = .outputNotProduced name := by
  unfold collect
  rw [except_mapM_eq_error]
  refine exists₃_congr fun before name after => and_congr_right fun _ => and_congr (forall₂_congr fun other _ => ?_) ?_
  · rw [Bindings.mem_names]
    cases env.get? other <;> simp
  · rw [Bindings.mem_names]
    cases env.get? name <;> simp [eq_comm]

/-- Inputs are bound exactly if each of them has a tensor. -/
theorem exists_bindInputs_eq_ok {e : Evaluator} {inputs : List (String × Input)} :
    (∃ env', e.bindInputs env inputs = .ok env') ↔ ∀ entry ∈ inputs, ∃ x, e.inputTensor entry.1 entry.2 = .ok x := by
  induction inputs generalizing env with
  | nil => simp [bindInputs]
  | cons entry rest ih =>
    rw [List.forall_mem_cons]
    constructor
    · rintro ⟨env', h⟩
      obtain ⟨x, hx, h⟩ := except_bind_eq_ok.mp h
      exact ⟨⟨x, hx⟩, ih.mp ⟨env', h⟩⟩
    · rintro ⟨⟨x, hx⟩, hrest⟩
      obtain ⟨env', h⟩ := ih.mpr hrest
      exact ⟨env', except_bind_eq_ok.mpr ⟨x, hx, h⟩⟩

/-- Binding inputs fails as the first input that has no tensor does. -/
theorem bindInputs_eq_error {e : Evaluator} {inputs : List (String × Input)} {stop : Stop} :
    e.bindInputs env inputs = .error stop ↔ ∃ before name input after env',
      inputs = before ++ (name, input) :: after ∧ e.bindInputs env before = .ok env' ∧
        e.inputTensor name input = .error stop := by
  induction inputs generalizing env with
  | nil => simp [bindInputs]
  | cons entry rest ih =>
    obtain ⟨name, input⟩ := entry
    rw [bindInputs, except_bind_eq_error]
    constructor
    · rintro (h | ⟨x, hx, h⟩)
      · exact ⟨[], name, input, rest, env, rfl, rfl, h⟩
      · obtain ⟨before, name', input', after, env', rfl, hbefore, h⟩ := ih.mp h
        exact ⟨(name, input) :: before, name', input', after, env', rfl,
          except_bind_eq_ok.mpr ⟨x, hx, hbefore⟩, h⟩
    · rintro ⟨before, name', input', after, env', heq, hbefore, h⟩
      cases before with
      | nil =>
        rw [List.nil_append, List.cons.injEq, Prod.mk.injEq] at heq
        obtain ⟨⟨rfl, rfl⟩, -⟩ := heq
        exact .inl h
      | cons entry before =>
        rw [List.cons_append, List.cons.injEq] at heq
        obtain ⟨rfl, heq⟩ := heq
        obtain ⟨x, hx, hbefore⟩ := except_bind_eq_ok.mp hbefore
        exact .inr ⟨x, hx, ih.mpr ⟨before, name', input', after, env', heq, hbefore, h⟩⟩

/-- Steps fail as the first operation that has no results does. -/
theorem steps_eq_error {e : Evaluator} {index : Nat} {operations : List Operation} {stop : Stop} :
    e.steps index env operations = .error stop ↔ ∃ before op after env',
      operations = before ++ op :: after ∧ e.steps index env before = .ok env' ∧
        e.stepResults (index + before.length) env' op = .error stop := by
  simp only [exists_and_left]
  induction operations generalizing index env with
  | nil => simp [steps]
  | cons op rest ih =>
    have hlength (before : List Operation) : index + 1 + before.length = index + (op :: before).length := by
      rw [List.length_cons, Nat.add_comm before.length, ← Nat.add_assoc]
    rw [steps, except_bind_eq_error, exists_split_cons]
    refine or_congr ?_ ?_
    · simp [steps]
    · simp only [ih, steps, except_bind_eq_ok, hlength]
      constructor
      · rintro ⟨xs, hxs, before, op', after, heq, env', hbefore, h⟩
        exact ⟨before, op', after, heq, env', ⟨xs, hxs, hbefore⟩, h⟩
      · rintro ⟨before, op', after, heq, env', ⟨xs, hxs, hbefore⟩, h⟩
        exact ⟨xs, hxs, before, op', after, heq, env', hbefore, h⟩

end TensorEval.Evaluator
