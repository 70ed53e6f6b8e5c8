/-!
Values under names: a table in the order of its names, in which each name stands once.
-/
namespace TensorEval

/-- Values bound to names, in the order of the names. -/
structure Bindings (α : Type) where
  entries : List (String × α)
  sorted : entries.Pairwise fun a b => a.1 < b.1

namespace Bindings

variable {α β : Type}

def empty : Bindings α := ⟨[], .nil⟩

instance : Inhabited (Bindings α) := ⟨empty⟩

/-- The entries with one more, at its place in the order. An entry of the same name gives way. -/
def insertEntry (name : String) (value : α) : List (String × α) → List (String × α)
  | [] => [(name, value)]
  | entry :: rest =>
    if name < entry.1 then (name, value) :: entry :: rest
    else if entry.1 < name then entry :: insertEntry name value rest
    else (name, value) :: rest

theorem mem_insertEntry {name : String} {value : α} {entries : List (String × α)}
    {e : String × α} (h : e ∈ insertEntry name value entries) : e = (name, value) ∨ e ∈ entries := by
  induction entries with
  | nil => simpa [insertEntry] using h
  | cons entry rest ih =>
    simp only [insertEntry] at h
    split at h
    · simpa using h
    · split at h
      · rcases List.mem_cons.1 h with rfl | h
        · simp
        · rcases ih h with h | h <;> simp [h]
      · rcases List.mem_cons.1 h with h | h <;> simp [h]

private theorem insertEntry_sorted (name : String) (value : α) {entries : List (String × α)}
    (h : entries.Pairwise fun a b => a.1 < b.1) :
    (insertEntry name value entries).Pairwise fun a b => a.1 < b.1 := by
  induction entries with
  | nil => simp [insertEntry]
  | cons entry rest ih =>
    obtain ⟨hentry, hrest⟩ := List.pairwise_cons.1 h
    simp only [insertEntry]
    split
    · rename_i hlt
      refine List.pairwise_cons.2 ⟨fun e he => ?_, h⟩
      rcases List.mem_cons.1 he with rfl | he
      · exact hlt
      · exact String.lt_trans hlt (hentry e he)
    · split
      · rename_i hlt
        refine List.pairwise_cons.2 ⟨fun e he => ?_, ih hrest⟩
        rcases mem_insertEntry he with rfl | he
        · exact hlt
        · exact hentry e he
      · rename_i hge hle
        have heq : entry.1 = name := String.le_antisymm (String.not_lt.1 hge) (String.not_lt.1 hle)
        exact List.pairwise_cons.2 ⟨fun e he => heq ▸ hentry e he, hrest⟩

def insert (b : Bindings α) (name : String) (value : α) : Bindings α :=
  ⟨insertEntry name value b.entries, insertEntry_sorted name value b.sorted⟩

def get? (b : Bindings α) (name : String) : Option α := b.entries.lookup name

def contains (b : Bindings α) (name : String) : Bool := (b.get? name).isSome

def names (b : Bindings α) : List String := b.entries.map Prod.fst

def size (b : Bindings α) : Nat := b.entries.length

def isEmpty (b : Bindings α) : Bool := b.entries.isEmpty

/-- The table of a list of pairs. Of two values for a name the later one stays. -/
def ofList (pairs : List (String × α)) : Bindings α :=
  pairs.foldl (fun b (name, value) => b.insert name value) empty

/-- The table with every name changed. Of two values for a new name the later one stays. -/
def rename (f : String → String) (b : Bindings α) : Bindings α :=
  ofList (b.entries.map fun (name, value) => (f name, value))

def map (f : α → β) (b : Bindings α) : Bindings β :=
  ⟨b.entries.map fun (name, value) => (name, f value), by
    simpa [List.pairwise_map] using b.sorted⟩

theorem lookup_cons_eq (key : String) (entry : String × α) (rest : List (String × α)) :
    (entry :: rest).lookup key = if key = entry.1 then some entry.2 else rest.lookup key := by
  obtain ⟨name, value⟩ := entry
  by_cases h : key = name
  · simp [h]
  · simp [List.lookup_cons, h, beq_eq_false_iff_ne.2 h]

private theorem lookup_insertEntry (name key : String) (value : α) (entries : List (String × α)) :
    (insertEntry name value entries).lookup key =
      if key = name then some value else entries.lookup key := by
  induction entries with
  | nil => simp [insertEntry, lookup_cons_eq]
  | cons entry rest ih =>
    simp only [insertEntry]
    split
    · simp [lookup_cons_eq]
    · split
      · rename_i hlt
        have hne : entry.1 ≠ name := fun h => String.lt_irrefl _ (h ▸ hlt)
        simp only [lookup_cons_eq, ih]
        by_cases h : key = entry.1
        · simp [h, hne]
        · simp [h]
      · rename_i hge hle
        have heq : entry.1 = name := String.le_antisymm (String.not_lt.1 hge) (String.not_lt.1 hle)
        simp only [lookup_cons_eq, heq]
        split <;> rfl

@[simp] theorem get?_insert (b : Bindings α) (name key : String) (value : α) :
    (b.insert name value).get? key = if key = name then some value else b.get? key :=
  lookup_insertEntry name key value b.entries

theorem contains_insert (b : Bindings α) (name key : String) (value : α) :
    (b.insert name value).contains key = (key = name || b.contains key) := by
  simp only [contains, get?_insert]
  split <;> simp_all

end Bindings

end TensorEval
