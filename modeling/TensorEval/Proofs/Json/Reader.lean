import TensorEval.Case.Reader
import TensorEval.Case.Writer
import TensorEval.Proofs.Bindings
import TensorEval.Proofs.Json.Tree

/-! Readers of the tree of a written value: they find the parts that were written. -/
namespace TensorEval.Json

/-- Whether the text of a double is read as that double. Numbers with many digits are rounded more than once when they
are read, so this does not hold of every double. -/
def ReadsBack (x : Double) : Prop := Numeral.lex (floatText x) = (.whole (.float x), [])

instance (x : Double) : Decidable (ReadsBack x) := inferInstanceAs (Decidable (_ = _))

/-- The double written as `0.10005139921364041` is read as a neighbour. -/
example : ¬ReadsBack (.ofBits .binary64 0x3FB99CF7EF8AA7FB) := by decide +kernel

theorem readString_node (s : String) : (node (.string s)).readString = .ok s := rfl

theorem readWord_node {n : Nat} (h : n < wordBound) : (node (.integer n)).readWord = .ok n := by
  simp only [node, Node.readWord, Numeral.lex_word h]
  rfl

/-- A word that is read where a double is wanted. -/
theorem readDouble_integer {n : Int} (hlow : -(signedBound : Int) ≤ n) (hhigh : n < wordBound) :
    (node (.integer n)).readDouble = .ok (.ofInt .binary64 n) := by
  rcases Int.lt_or_le n 0 with hneg | hpos
  · obtain ⟨k, rfl⟩ : ∃ k : Nat, n = -(k : Int) := ⟨n.natAbs, by omega⟩
    simp only [node, Node.readDouble, Numeral.lex_negative (n := k) (by omega) (by omega)]
    rfl
  · obtain ⟨k, rfl⟩ : ∃ k : Nat, n = k := ⟨n.natAbs, by omega⟩
    simp only [node, Node.readDouble, Numeral.lex_word (n := k) (by omega)]
    rfl

theorem readDouble_node {x : Double} (hx : x.isFinite = true) (h : ReadsBack x) :
    (node (.float x)).readDouble = .ok x := by
  unfold ReadsBack at h
  rw [node, if_pos hx, h]
  rfl

/-- A whole text has a value if its tree has one and nothing is left over. -/
theorem readText_eq_ok {α : Type} {r : Reader α} {text : String} {a : α} :
    readText r text = .ok a ↔ r (Node.ofText text.toList).1 = .ok a ∧ (Node.ofText text.toList).2 = false := by
  unfold readText
  obtain ⟨node, more⟩ := Node.ofText text.toList
  dsimp only
  rw [except_bind_eq_ok]
  cases more with
  | true => simp
  | false => simp

section Readers
variable {α β σ : Type} {encode : α → Json} {r : Reader β} {f : α → β}

private theorem items_read_itemNodes {as : List α} (h : ∀ a ∈ as, r (encode a).node = .ok (f a)) :
    (itemNodes (as.map encode)).read r = .ok (as.map f) := by
  induction as with
  | nil => rfl
  | cons a as ih =>
    have hrest := ih fun x hx => h x (List.mem_cons_of_mem a hx)
    simp only [List.map_cons, itemNodes, Items.read, h a List.mem_cons_self, hrest, except_ok_bind, except_pure]

theorem readList_node {as : List α} (h : ∀ a ∈ as, r (encode a).node = .ok (f a)) :
    (node (.array (as.map encode))).readList r = .ok (as.map f) := by
  rw [node]
  exact items_read_itemNodes h

theorem readList_node_self {r : Reader α} {as : List α} (h : ∀ a ∈ as, r (encode a).node = .ok a) :
    (node (.array (as.map encode))).readList r = .ok as := by
  have hread := readList_node (f := id) h
  rwa [List.map_id] at hread

theorem readOptional_node {value : Json} {b : β} (hnull : value.node ≠ .null) (h : r value.node = .ok b) :
    Node.readOptional r value.node = .ok (some b) := by
  unfold Node.readOptional
  split
  next heq => exact absurd heq hnull
  next => rw [h, except_map_ok]

private theorem members_readInto_memberNodes : ∀ {entries : List (String × α)} (table : Bindings β),
    (∀ e ∈ entries, r (encode e.2).node = .ok (f e.2)) →
      (memberNodes (entries.map fun e => (e.1, encode e.2))).readInto r table =
        .ok ((entries.map fun e => (e.1, f e.2)).foldl (fun b e => b.insert e.1 e.2) table)
  | [], _, _ => rfl
  | entry :: entries, table, h => by
    have hfirst := h entry List.mem_cons_self
    have hrest := members_readInto_memberNodes (table.insert entry.1 (f entry.2)) fun e he =>
      h e (List.mem_cons_of_mem entry he)
    simp only [List.map_cons, memberNodes, Members.readInto, Leaf.read, hfirst, except_ok_bind, hrest, List.foldl_cons]

theorem readTable_node {b : Bindings α} (h : ∀ e ∈ b.entries, r (encode e.2).node = .ok (f e.2)) :
    (b.json encode).node.readTable r = .ok (b.map f) :=
  (members_readInto_memberNodes .empty h).trans (congrArg Except.ok (Bindings.ofList_entries (b.map f)))

section Field
variable {fields : List (RecordField σ)} {s : σ} {name : String} {get : σ → Option β} {set : β → σ → σ} {value : Json}

/-- A field that was not read before is read from its member. -/
theorem readFields_member (hfind : fields.find? (·.name = name) = some (.keep name get set r)) (hget : get s = none)
    (rest : List (String × Json)) :
    (memberNodes ((name, value) :: rest)).readFields fields s =
      r value.node >>= fun x => (memberNodes rest).readFields fields (set x s) := by
  have hnew : (RecordField.keep name get set r).isRead s = false := by
    change (get s).isSome = false
    rw [hget, Option.isSome_none]
  rw [memberNodes, Members.readFields, Leaf.read, except_ok_bind, hfind]
  dsimp only
  rw [hnew]
  change (r value.node).map (set · s) >>= _ = _
  cases r value.node <;> rfl

theorem readFields_keep {x : β} (hfind : fields.find? (·.name = name) = some (.keep name get set r))
    (hget : get s = none) (hread : r value.node = .ok x) (rest : List (String × Json)) :
    (memberNodes ((name, value) :: rest)).readFields fields s = (memberNodes rest).readFields fields (set x s) := by
  rw [readFields_member hfind hget, hread, except_ok_bind]

/-- A field that cannot be read ends the reading of its record. -/
theorem readFields_keep_error {refusal : Refusal} (hfind : fields.find? (·.name = name) = some (.keep name get set r))
    (hget : get s = none) (hread : r value.node = .error refusal) (rest : List (String × Json)) :
    (memberNodes ((name, value) :: rest)).readFields fields s = .error refusal := by
  rw [readFields_member hfind hget, hread, except_error_bind]

end Field

end Readers

end TensorEval.Json
