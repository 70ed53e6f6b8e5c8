import Mathlib.Algebra.BigOperators.Group.List.Lemmas
import Mathlib.Algebra.GroupWithZero.Nat
import Mathlib.Data.List.Dedup
import TensorEval.Proofs.Case.WellFormed

/-! The flow of values in an accepted case, exactly: each result leads to the one operation that binds it, and each value
that is read to the operations that read it, once for each use. -/
namespace TensorEval.Case
variable {operations : List Operation} {table : Bindings (List String)} {added : List (String × String)} {name : String}

/-- The display names of the operations that read a value, in their order and once for each use. -/
def readers (operations : List Operation) (name : String) : List String :=
  operations.flatMap fun op => List.replicate (op.operands.count name) op.displayName

private theorem map_fst_named (operations : List Operation) (names : Operation → List String) :
    (operations.flatMap fun op => (names op).map fun name => (name, op.displayName)).map Prod.fst =
      operations.flatMap names := by
  rw [List.map_flatMap]
  refine List.flatMap_congr fun op _ => ?_
  rw [List.map_map]
  exact List.map_id (names op)

/-! ### Producers -/

private theorem names_results (operations : List Operation) :
    (results operations).map Prod.fst = operations.flatMap Operation.results :=
  map_fst_named operations Operation.results

private theorem mem_names_producers {c : Case} :
    name ∈ c.wiring.producers.names ↔ ∃ op ∈ c.operations, name ∈ op.results := by
  rw [wiring, Bindings.mem_names_ofList, names_results, List.mem_flatMap]

/-- No producer is lost to a later one, since no two results have the same name. -/
theorem get?_producers {c : Case} (hdistinct : (c.operations.flatMap Operation.results).Nodup) {op : Operation}
    (hop : op ∈ c.operations) (hname : name ∈ op.results) : c.wiring.producers.get? name = some op.displayName := by
  rw [← names_results] at hdistinct
  refine (Bindings.get?_ofList_of_nodup hdistinct).mpr ?_
  exact List.mem_flatMap.mpr ⟨op, hop, List.mem_map_of_mem hname⟩

/-! ### Dependents -/

private theorem getD_recordUse (use : String × String) :
    ((recordUse table use).get? name).getD [] = (table.get? name).getD [] ++ if use.1 = name then [use.2] else [] := by
  rw [recordUse, Bindings.get?_insert]
  by_cases h : name = use.1
  · subst h
    simp
  · simp [h, Ne.symm h]

private theorem getD_foldl_recordUse : ((added.foldl recordUse table).get? name).getD [] =
    (table.get? name).getD [] ++ (added.filter (·.1 = name)).map Prod.snd := by
  induction added generalizing table with
  | nil => simp
  | cons use rest ih =>
    rw [List.foldl_cons, ih, getD_recordUse, List.append_assoc, List.filter_cons]
    by_cases h : use.1 = name <;> simp [h]

private theorem mem_names_foldl_recordUse :
    name ∈ (added.foldl recordUse table).names ↔ name ∈ table.names ∨ name ∈ added.map Prod.fst := by
  induction added generalizing table with
  | nil => simp
  | cons use rest ih =>
    rw [List.foldl_cons, ih, recordUse, Bindings.mem_names_insert, List.map_cons, List.mem_cons, or_assoc, or_left_comm]

private theorem names_uses (operations : List Operation) :
    (uses operations).map Prod.fst = operations.flatMap Operation.operands :=
  map_fst_named operations Operation.operands

private theorem filter_uses (operations : List Operation) (name : String) :
    ((uses operations).filter (·.1 = name)).map Prod.snd = readers operations name := by
  rw [uses, readers, List.filter_flatMap, List.map_flatMap]
  refine List.flatMap_congr fun op _ => ?_
  rw [List.filter_map, List.map_map, List.count_eq_length_filter]
  exact List.map_const'

private theorem mem_names_dependents {c : Case} :
    name ∈ c.wiring.dependents.names ↔ ∃ op ∈ c.operations, name ∈ op.operands := by
  rw [wiring, mem_names_foldl_recordUse, names_uses, List.mem_flatMap]
  exact or_iff_right List.not_mem_nil

theorem get?_dependents {c : Case} (h : name ∈ c.wiring.dependents.names) :
    c.wiring.dependents.get? name = some (readers c.operations name) := by
  obtain ⟨names, hnames⟩ := Bindings.mem_names.mp h
  have hlisted : (c.wiring.dependents.get? name).getD [] = readers c.operations name :=
    getD_foldl_recordUse.trans (filter_uses c.operations name)
  rw [hnames] at hlisted ⊢
  rw [← hlisted, Option.getD_some]

private theorem length_readers (operations : List Operation) (name : String) :
    (readers operations name).length = (operations.flatMap Operation.operands).count name := by
  rw [readers, List.length_flatMap, List.count_flatMap]
  simp only [List.length_replicate, Function.comp_def]

/-- Every use stands in exactly one list. -/
theorem sum_length_dependents (c : Case) : (c.wiring.dependents.entries.map fun entry => entry.2.length).sum =
    (c.operations.map fun op => op.operands.length).sum := by
  have hentries := Bindings.entries_eq_map fun name (h : name ∈ c.wiring.dependents.names) => get?_dependents h
  have hperm : c.wiring.dependents.names.Perm (c.operations.flatMap Operation.operands).dedup := by
    refine (List.perm_ext_iff_of_nodup c.wiring.dependents.names_nodup (List.nodup_dedup _)).mpr fun name => ?_
    rw [mem_names_dependents, List.mem_dedup, List.mem_flatMap]
  calc (c.wiring.dependents.entries.map fun entry => entry.2.length).sum
    _ = (c.wiring.dependents.names.map fun name => (c.operations.flatMap Operation.operands).count name).sum := by
      rw [hentries, List.map_map]
      simp only [Function.comp_def, length_readers]
    _ = ((c.operations.flatMap Operation.operands).dedup.map fun name =>
          (c.operations.flatMap Operation.operands).count name).sum := (hperm.map _).sum_eq
    _ = (c.operations.flatMap Operation.operands).length := List.sum_map_count_dedup_eq_length _
    _ = (c.operations.map fun op => op.operands.length).sum := List.length_flatMap

/-- The flow of values in an accepted case. The producers are listed under exactly the names of the results, each with the
display name of the one operation that binds it. The dependents are listed under exactly the names that are read, each with
the display names of the operations that read it, in their order and once for each operand, so that the lists have as many
entries as the case has operands. -/
theorem validate_wiring {κ : Type} [Signature κ] (registry : Registry κ) (c : Case) (wiring : Wiring)
    (h : c.validate registry = .ok wiring) :
    (∀ name, name ∈ wiring.producers.names ↔ ∃ op ∈ c.operations, name ∈ op.results) ∧
    (∀ before op after, c.operations = before ++ op :: after → ∀ name ∈ op.results,
      wiring.producers.get? name = some op.displayName ∧ op.results.count name = 1 ∧
        ∀ other ∈ before ++ after, name ∉ other.results) ∧
    (∀ name, name ∈ wiring.dependents.names ↔ ∃ op ∈ c.operations, name ∈ op.operands) ∧
    (∀ name ∈ wiring.dependents.names, wiring.dependents.get? name = some (readers c.operations name)) ∧
    (wiring.dependents.entries.map fun entry => entry.2.length).sum =
      (c.operations.map fun op => op.operands.length).sum := by
  have hdistinct := (exists_validate_eq_ok.mp ⟨wiring, h⟩).distinct
  obtain rfl := wiring_of_validate h
  refine ⟨fun name => mem_names_producers, fun before op after heq name hname => ?_, fun name => mem_names_dependents,
    fun name => get?_dependents, sum_length_dependents c⟩
  have hop : op ∈ c.operations := heq ▸ List.mem_append_right before List.mem_cons_self
  refine ⟨get?_producers hdistinct hop hname, ?_⟩
  have hperm : c.operations.Perm (op :: (before ++ after)) := heq ▸ List.perm_middle
  have hdistinct := (hperm.flatMap_right Operation.results).nodup_iff.mp hdistinct
  rw [List.flatMap_cons] at hdistinct
  obtain ⟨hresults, -, hapart⟩ := List.nodup_append.mp hdistinct
  refine ⟨List.count_eq_one_of_mem hresults hname, fun other hother hmem => ?_⟩
  exact hapart name hname name (List.mem_flatMap.mpr ⟨other, hother, hmem⟩) rfl

/-- Two operations that share a label, the first of which reads a value twice that the second reads as well. -/
def relabelled : Case where
  inputs := Bindings.empty.insert "x" ⟨.i32, [2], none, none⟩
  operations := [
    ⟨"arith.addi", ["x", "x"], ["y"], .empty, some "step"⟩,
    ⟨"arith.muli", ["y", "x"], ["z"], .empty, some "step"⟩]
  outputs := ["z"]

theorem validate_wiring_relabelled : relabelled.validate Registry.standard = .ok relabelled.wiring ∧
    relabelled.wiring.producers.get? "y" = some "step" ∧
    relabelled.wiring.dependents.get? "x" = some ["step", "step", "step"] := by
  have hvalid : relabelled.validate Registry.standard = .ok relabelled.wiring := rfl
  obtain ⟨-, hproducer, hread, hreaders, -⟩ := validate_wiring _ _ _ hvalid
  exact ⟨hvalid, (hproducer [] _ [_] rfl "y" (by decide)).1, hreaders "x" ((hread "x").mpr (by decide))⟩

end TensorEval.Case
