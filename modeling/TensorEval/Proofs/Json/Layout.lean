import TensorEval.Json.Reader
import TensorEval.Proofs.Json.Tree

/-! The text of a JSON value over indented lines is read as the tree of that value as well: blanks stand between tokens
only. -/
namespace TensorEval.Json

private theorem Token.lexWithin_append {blanks : List Char} (h : ∀ c ∈ blanks, isSpace c = true) (count : Nat)
    (cs : List Char) :
    lexWithin count (blanks ++ cs) = lexWithin count cs := by
  cases count with
  | zero => rfl
  | succ count => rw [lexWithin, lexWithin, List.dropWhile_append_of_pos h]

private theorem isSpace_lineBreak {depth : Nat} {c : Char} (h : c ∈ lineBreak depth) : Token.isSpace c = true := by
  rcases List.mem_cons.mp h with rfl | h
  · rfl
  · rw [(List.mem_replicate.mp h).2]
    rfl

namespace Spells
variable {cs cs' rest : List Char} {ts ts' : List Token}

private theorem blanks {blanks : List Char} (hblanks : ∀ c ∈ blanks, Token.isSpace c = true) (h : Spells cs ts rest) :
    Spells (blanks ++ cs) ts rest := by
  refine ⟨?_, fun count => ?_⟩
  · rw [List.length_append]
    exact Nat.le_add_left_of_le h.length_le
  · rw [List.append_assoc, Token.lexWithin_append hblanks, h.lexWithin_append]

private theorem indented (depth : Nat) (h : Spells cs ts (cs' ++ rest)) (h' : Spells cs' ts' rest) :
    Spells (lineBreak depth ++ cs ++ cs') (ts ++ ts') rest := by
  rw [List.append_assoc]
  exact blanks (fun _ => isSpace_lineBreak) (h.append h')

private theorem indentedMember (depth : Nat) (name : String) (h : Spells cs ts (cs' ++ rest))
    (h' : Spells cs' ts' rest) :
    Spells (lineBreak depth ++ Json.quoted name ++ [':', ' '] ++ cs ++ cs')
      (.string (.whole name) :: .colon :: ts ++ ts') rest := by
  have hvalue : Spells ([' '] ++ cs) ts (cs' ++ rest) := blanks (by simp [Token.isSpace]) h
  have hmember := member name hvalue h'
  simp only [List.append_assoc, List.cons_append, List.nil_append] at hmember ⊢
  exact blanks (fun _ => isSpace_lineBreak) hmember

end Spells

private theorem closes_prettyItems (depth : Nat) (items : List Json) (rest : List Char) :
    Closes (prettyItems depth items ++ rest) := by
  cases items with
  | nil => exact closes_cons _
  | cons item items => exact closes_cons _

private theorem closes_prettyMembers (depth : Nat) (members : List (String × Json)) (rest : List Char) :
    Closes (prettyMembers depth members ++ rest) := by
  cases members with
  | nil => exact closes_cons _
  | cons member members => exact closes_cons _

mutual

/-- The text of a value over indented lines holds its tokens. -/
theorem spells_pretty : ∀ (value : Json) (depth : Nat) {rest : List Char}, Closes rest →
    Spells (value.prettyAt depth) value.tokens rest
  | null, _, _, hrest => spells_compact null hrest
  | boolean b, _, _, hrest => spells_compact (boolean b) hrest
  | integer n, _, _, hrest => spells_compact (integer n) hrest
  | float x, _, _, hrest => spells_float x hrest
  | string s, _, _, hrest => spells_compact (string s) hrest
  | array [], _, _, hrest => spells_compact (array []) hrest
  | array (first :: items), depth, rest, _ =>
    .cons rfl rfl (.indented (depth + 1) (spells_pretty first (depth + 1) (closes_prettyItems depth items rest))
      (spells_prettyItems depth items rest))
  | object [], _, _, hrest => spells_compact (object []) hrest
  | object ((name, first) :: members), depth, rest, _ =>
    .cons rfl rfl (.indentedMember (depth + 1) name
      (spells_pretty first (depth + 1) (closes_prettyMembers depth members rest))
      (spells_prettyMembers depth members rest))

private theorem spells_prettyItems (depth : Nat) : ∀ (items : List Json) (rest : List Char),
    Spells (prettyItems depth items) (itemTokens items) rest
  | [], _ => .blanks (fun _ => isSpace_lineBreak) (.one rfl rfl)
  | item :: items, rest =>
    .cons rfl rfl (.indented (depth + 1) (spells_pretty item (depth + 1) (closes_prettyItems depth items rest))
      (spells_prettyItems depth items rest))

private theorem spells_prettyMembers (depth : Nat) : ∀ (members : List (String × Json)) (rest : List Char),
    Spells (prettyMembers depth members) (memberTokens members) rest
  | [], _ => .blanks (fun _ => isSpace_lineBreak) (.one rfl rfl)
  | (name, value) :: members, rest =>
    .cons rfl rfl (.indentedMember (depth + 1) name
      (spells_pretty value (depth + 1) (closes_prettyMembers depth members rest))
      (spells_prettyMembers depth members rest))

end

/-- The text of a value over indented lines is read as the tree of the value. -/
theorem ofText_pretty (value : Json) (depth : Nat) : Node.ofText (value.prettyAt depth) = (value.node, false) :=
  ofText_of_spells (spells_pretty value depth closes_nil)

theorem readText_pretty {α : Type} (r : Reader α) (value : Json) (depth : Nat) :
    readText r (String.ofList (value.prettyAt depth)) = r value.node := by
  rw [readText, String.toList_ofList, ofText_pretty]
  dsimp only
  cases r value.node <;> rfl

end TensorEval.Json
