import Mathlib.Data.List.Sort
import TensorEval.Bindings

/-! Bound names: which names a table holds, and which it holds after more are bound. A table is determined by the
values of its names. -/
namespace TensorEval.Bindings

variable {α β : Type}

private theorem lookup_isSome (name : String) (entries : List (String × α)) :
    (entries.lookup name).isSome ↔ name ∈ entries.map Prod.fst := by
  induction entries with
  | nil => simp
  | cons entry rest ih =>
    rw [lookup_cons_eq, List.map_cons, List.mem_cons]
    by_cases h : name = entry.1
    · simp [h]
    · simp [h, ih]

theorem contains_eq_true {b : Bindings α} {name : String} : b.contains name = true ↔ name ∈ b.names :=
  lookup_isSome name b.entries

theorem mem_names {b : Bindings α} {name : String} : name ∈ b.names ↔ ∃ x, b.get? name = some x := by
  rw [← contains_eq_true, contains, Option.isSome_iff_exists]

theorem names_nodup (b : Bindings α) : b.names.Nodup := by
  refine List.pairwise_map.mpr (b.sorted.imp ?_)
  intro x y hlt heq
  exact String.lt_irrefl _ (heq ▸ hlt)

theorem mem_names_insert {b : Bindings α} {name key : String} {x : α} :
    key ∈ (b.insert name x).names ↔ key = name ∨ key ∈ b.names := by
  rw [← contains_eq_true, contains_insert, Bool.or_eq_true, decide_eq_true_eq, contains_eq_true]

theorem mem_names_ofList {pairs : List (String × α)} {name : String} :
    name ∈ (ofList pairs).names ↔ name ∈ pairs.map Prod.fst := by
  have hfold : ∀ b : Bindings α, name ∈ (pairs.foldl (fun b (entry : String × α) => b.insert entry.1 entry.2) b).names ↔
      name ∈ pairs.map Prod.fst ∨ name ∈ b.names := by
    induction pairs with
    | nil => simp
    | cons entry rest ih =>
      intro b
      rw [List.foldl_cons, ih, mem_names_insert, List.map_cons, List.mem_cons, or_left_comm, or_assoc]
  exact (hfold empty).trans (or_iff_left List.not_mem_nil)

private theorem mem_entries_of_lookup {entries : List (String × α)} {name : String} {x : α}
    (h : entries.lookup name = some x) : (name, x) ∈ entries := by
  obtain ⟨before, after, rfl, -⟩ := List.lookup_eq_some_iff.mp h
  simp

private theorem lookup_eq_some {entries : List (String × α)} {name : String} {x : α}
    (h : (entries.map Prod.fst).Nodup) :
    entries.lookup name = some x ↔ (name, x) ∈ entries := by
  refine ⟨mem_entries_of_lookup, fun hx => ?_⟩
  obtain ⟨y, hy⟩ := Option.isSome_iff_exists.mp ((lookup_isSome name entries).mpr (List.mem_map_of_mem hx))
  have hxy : (name, x) = (name, y) := List.inj_on_of_nodup_map h hx (mem_entries_of_lookup hy) rfl
  rw [hy, (Prod.mk.inj hxy).2]

theorem mem_entries {b : Bindings α} {name : String} {x : α} : (name, x) ∈ b.entries ↔ b.get? name = some x :=
  (lookup_eq_some b.names_nodup).symm

private theorem get?_foldl_insert {pairs : List (String × α)} {name : String} : ∀ {b : Bindings α},
    (pairs.foldl (fun b e => b.insert e.1 e.2) b).get? name = (pairs.reverse.lookup name).or (b.get? name) := by
  induction pairs with
  | nil => exact rfl
  | cons entry rest ih =>
    intro b
    have hlast : (b.insert entry.1 entry.2).get? name = (List.lookup name [entry]).or (b.get? name) := by
      rw [get?_insert, lookup_cons_eq]
      split <;> rfl
    rw [List.foldl_cons, ih, hlast, List.reverse_cons, List.lookup_append, Option.or_assoc]

/-- Of pairs with different names each one is kept. -/
theorem get?_ofList_of_nodup {pairs : List (String × α)} (h : (pairs.map Prod.fst).Nodup) {name : String} {x : α} :
    (ofList pairs).get? name = some x ↔ (name, x) ∈ pairs := by
  have hlast : (ofList pairs).get? name = pairs.reverse.lookup name := get?_foldl_insert.trans Option.or_none
  have hdistinct : (pairs.reverse.map Prod.fst).Nodup := by
    rw [List.map_reverse]
    exact List.nodup_reverse.mpr h
  rw [hlast, lookup_eq_some hdistinct, List.mem_reverse]

/-- The entries of a table in which the values are a function of the names. -/
theorem entries_eq_map {b : Bindings α} {f : String → α} (h : ∀ name ∈ b.names, b.get? name = some (f name)) :
    b.entries = b.names.map fun name => (name, f name) := by
  rw [names, List.map_map]
  refine (List.map_id b.entries).symm.trans (List.map_congr_left ?_)
  rintro ⟨name, x⟩ hx
  have hvalue := h name (List.mem_map_of_mem hx)
  rw [mem_entries.mp hx, Option.some.injEq] at hvalue
  exact Prod.ext rfl hvalue

/-- Tables that give every name the same value are the same, since their entries stand in the order of the names. -/
theorem ext_get? {b c : Bindings α} (h : ∀ name, b.get? name = c.get? name) : b = c := by
  have hirrefl : Std.Irrefl fun x y : String × α => x.1 < y.1 := ⟨fun _ => String.lt_irrefl _⟩
  have hantisymm : Std.Antisymm fun x y : String × α => x.1 < y.1 :=
    ⟨fun _ _ hxy hyx => absurd (String.lt_trans hxy hyx) (String.lt_irrefl _)⟩
  have hentries : b.entries = c.entries := by
    refine b.sorted.eq_of_mem_iff c.sorted ?_
    rintro ⟨name, x⟩
    rw [mem_entries, mem_entries, h]
  obtain ⟨entries, _⟩ := b
  obtain ⟨entries', _⟩ := c
  subst hentries
  rfl

theorem map_id (b : Bindings α) : b.map id = b := by
  obtain ⟨entries, _⟩ := b
  simp [map]

theorem get?_map (f : α → β) (b : Bindings α) (name : String) : (b.map f).get? name = (b.get? name).map f := by
  obtain ⟨entries, hsorted⟩ := b
  change (entries.map fun entry => (entry.1, f entry.2)).lookup name = (entries.lookup name).map f
  clear hsorted
  induction entries with
  | nil => rfl
  | cons entry rest ih =>
    rw [List.map_cons, lookup_cons_eq, lookup_cons_eq, ih]
    split <;> rfl

theorem map_insert (f : α → β) (b : Bindings α) (name : String) (x : α) :
    (b.insert name x).map f = (b.map f).insert name (f x) := by
  refine ext_get? fun key => ?_
  simp only [get?_map, get?_insert]
  split <;> rfl

private theorem insertEntry_of_lt {name : String} {x : α} {entries : List (String × α)}
    (h : ∀ e ∈ entries, e.1 < name) :
    insertEntry name x entries = entries ++ [(name, x)] := by
  induction entries with
  | nil => rfl
  | cons entry rest ih =>
    have hlt := h entry List.mem_cons_self
    have hge : ¬name < entry.1 := fun hgt => String.lt_irrefl _ (String.lt_trans hlt hgt)
    rw [insertEntry, if_neg hge, if_pos hlt, ih fun e he => h e (List.mem_cons_of_mem entry he)]
    rfl

private theorem entries_foldl_insert {entries : List (String × α)} : ∀ {b : Bindings α},
    (b.entries ++ entries).Pairwise (fun x y => x.1 < y.1) →
      (entries.foldl (fun b e => b.insert e.1 e.2) b).entries = b.entries ++ entries := by
  induction entries with
  | nil => exact fun _ => (List.append_nil _).symm
  | cons entry rest ih =>
    intro b h
    have hlt : ∀ e ∈ b.entries, e.1 < entry.1 :=
      fun e he => (List.pairwise_append.mp h).2.2 e he entry List.mem_cons_self
    have hinsert : (b.insert entry.1 entry.2).entries = b.entries ++ [entry] := insertEntry_of_lt hlt
    have happend : (b.insert entry.1 entry.2).entries ++ rest = b.entries ++ entry :: rest := by
      rw [hinsert, List.append_assoc, List.singleton_append]
    rw [List.foldl_cons, ih (happend.symm ▸ h), happend]

/-- A table is built again from its entries. -/
theorem ofList_entries (b : Bindings α) : ofList b.entries = b := by
  have hempty : (empty : Bindings α).entries ++ b.entries = b.entries := rfl
  have hentries : (ofList b.entries).entries = b.entries := entries_foldl_insert (hempty ▸ b.sorted)
  refine ext_get? fun name => ?_
  rw [get?, hentries, get?]

end TensorEval.Bindings
