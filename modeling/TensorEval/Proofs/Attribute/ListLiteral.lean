import Mathlib.Algebra.BigOperators.Group.List.Basic
import Mathlib.Algebra.GroupWithZero.Nat
import TensorEval.Proofs.Attribute.Splat

/-! Which lists are read as dense literals: those with as many tokens as the shape has elements, each of them a value. The
brackets and commas between the tokens need not nest, and a list that does not is read as if it did. -/
namespace TensorEval

/-- The number of lists in nested lists for a shape. -/
def Shape.lists : Shape → Nat
  | [] => 0
  | d :: rest => 1 + d * lists rest

namespace Attribute

section Brackets
variable {shape : Shape} {values : List (List Char)} {cs : List Char} {c : Char}

private theorem count_of_blanks (hc : Text.isBlank c = false) (h : Text.Blanks cs) : cs.count c = 0 :=
  List.count_eq_zero.mpr fun hmem => Bool.false_ne_true (hc.symm.trans (h c hmem))

private theorem count_trim (hc : Text.isBlank c = false) (cs : List Char) : cs.count c = (Text.trim cs).count c := by
  obtain ⟨l, r, hl, hr, hcs⟩ := Text.exists_trim cs
  calc cs.count c
    _ = (l ++ Text.trim cs ++ r).count c := by rw [← hcs]
    _ = l.count c + (Text.trim cs).count c + r.count c := by rw [List.count_append, List.count_append]
    _ = (Text.trim cs).count c := by rw [count_of_blanks hc hl, count_of_blanks hc hr, Nat.zero_add, Nat.add_zero]

private theorem count_joined (hc : c ≠ ',') (ps : List (List Char)) :
    (joined ps).count c = (ps.map (List.count c)).sum := by
  cases ps with
  | nil => rfl
  | cons p ps =>
    rw [joined, List.count_append, List.count_flatMap]
    simp [Function.comp_def, List.count_cons_of_ne hc.symm]

/-- Each list has its own brackets. -/
theorem Nests.count_bracket (hc : c = '[' ∨ c = ']') (h : Nests shape values cs) : cs.count c = shape.lists := by
  have hblank : Text.isBlank c = false := by rcases hc with rfl | rfl <;> rfl
  have hcomma : c ≠ ',' := by rcases hc with rfl | rfl <;> decide
  have hlist (inner : List Char) : ('[' :: inner ++ [']']).count c = 1 + inner.count c := by
    rcases hc with rfl | rfl
    · simp [Nat.add_comm]
    · simp [Nat.add_comm]
  induction h with
  | value hsep hne =>
    refine List.count_eq_zero.mpr fun hmem => ?_
    have hbracket := hsep c hmem
    rcases hc with rfl | rfl <;> exact nomatch hbracket
  | empty hcs hinner =>
    rw [count_trim hblank, hcs, hlist, count_of_blanks hblank hinner, Shape.lists, Nat.zero_mul]
  | @rows rest cs rows hne hrows hcs ih =>
    have hcounts : rows.map (List.count c ∘ Prod.snd) = rows.map fun _ => rest.lists := List.map_congr_left ih
    rw [count_trim hblank, hcs, hlist, count_joined hcomma, List.map_map, hcounts, List.map_const', List.sum_replicate]
    rfl

end Brackets

/-- Whether a text is a dense literal of a type with a list as its body. -/
def WritesList (shape : Shape) (type : ElementType) (list cs : List Char) : Prop :=
  ∃ body contents, Form.of (Text.trim cs) = .dense body contents ∧ readTensorType contents = .ok (shape, type) ∧
    Text.trim body = list ∧ list.head? = some '['

section Reading
variable {shape : Shape} {type : ElementType} {list cs : List Char} {a : Attribute}

private theorem exists_values_iff {α : Type} {readValue : List Char → Except AttributeFault α} {fill : α → Fill}
    {dense : List α → Attribute} {tokens : List (List Char)}
    (hfill : ∀ token, readFill type token = (readValue token).map fill) :
    (∃ a, (tokens.mapM readValue >>= fun values => Except.ok (dense values)) = .ok a) ↔
      ∀ token ∈ tokens, ∃ v, readFill type token = .ok v := by
  have hvalue (token : List Char) : (∃ v, readFill type token = .ok v) ↔ ∃ x, readValue token = .ok x := by
    rw [hfill]
    cases readValue token <;> simp
  simp only [hvalue, ← exists_except_mapM_iff, except_bind_eq_ok]
  exact ⟨fun ⟨_, values, hvalues, _⟩ => ⟨values, hvalues⟩, fun ⟨values, hvalues⟩ => ⟨_, values, hvalues, rfl⟩⟩

private theorem exists_readDense_iff {body : List Char} {tokens : List (List Char)}
    (htokens : bodyTokens shape body = .ok tokens) :
    (∃ a, readDense shape type body = .ok a) ↔ ∀ token ∈ tokens, ∃ v, readFill type token = .ok v := by
  rw [readDense_eq, htokens, except_ok_bind]
  split
  next htype => exact exists_values_iff fun _ => if_pos htype
  next htype => exact exists_values_iff fun _ => if_neg htype

private theorem writesList_withType (body : List Char) (hlist : (Text.trim body).head? = some '[')
    (hdims : ∀ d ∈ shape, d < wordBound) : WritesList shape type (Text.trim body) (withType body shape type) := by
  refine ⟨body, typeContents shape type, ?_, readTensorType_typeContents shape type hdims, rfl, hlist⟩
  rw [Text.trim_eq_self (trimmed_withType body shape type), form_withType]

/-- A list is read if it has as many tokens as its shape has elements, and each of them is a value. -/
theorem WritesList.exists_read_iff (h : WritesList shape type list cs) :
    (∃ a, read cs = .ok a) ↔ shape.elementCount = some (listTokens list).length ∧
      ∀ token ∈ listTokens list, ∃ v, readFill type token = .ok v := by
  obtain ⟨body, contents, hform, hcontents, rfl, hlist⟩ := h
  simp only [read_dense_iff hform, readDenseParts_eq hcontents]
  by_cases hcount : shape.elementCount = some (listTokens (Text.trim body)).length
  · rw [exists_readDense_iff (bodyTokens_list hlist hcount), and_iff_right hcount]
  · refine iff_of_false (fun ⟨a, ha⟩ => hcount ?_) fun hread => hcount hread.1
    rw [readDense_eq] at ha
    obtain ⟨tokens, htokens, -⟩ := except_bind_eq_ok.mp ha
    obtain ⟨rfl, hlen⟩ := bodyTokens_of_list hlist htokens
    exact hlen

private theorem WritesList.read_nested (h : WritesList shape type list cs) (hread : read cs = .ok a)
    (hrank : shape ≠ []) :
    Nests shape (listTokens list) (nested shape (listTokens list)) ∧
      read (withType (nested shape (listTokens list)) shape type) = .ok a := by
  obtain ⟨hcount, -⟩ := h.exists_read_iff.mp ⟨a, hread⟩
  obtain ⟨body, contents, hform, hcontents, rfl, hlist⟩ := h
  rw [read_dense_iff hform, readDenseParts_eq hcontents, readDense_eq, bodyTokens_list hlist hcount] at hread
  refine ⟨nests_nested hcount fun t ht => .of_mem_listTokens ht, read_withType (dims_lt_of_readTensorType hcontents) ?_⟩
  rw [readDense_eq, bodyTokens_nested hcount hrank fun t ht => .of_mem_listTokens ht]
  exact hread

end Reading

/-- A dense list is read if its tokens are values, as many as its shape has elements. They are the values that nested lists
for the shape have, row by row, and any other list is read as the nested lists of its tokens are. -/
theorem ofString_list {s : String} {shape : Shape} {type : ElementType} {list : List Char}
    (h : WritesList shape type list s.toList) :
    ((∃ a, ofString s = .ok a) ↔ shape.elementCount = some (listTokens list).length ∧
      ∀ token ∈ listTokens list, ∃ v, readFill type token = .ok v) ∧
    (∀ values, Nests shape values list → listTokens list = values) ∧
    ∀ a, ofString s = .ok a → shape ≠ [] → Nests shape (listTokens list) (nested shape (listTokens list)) ∧
      ofString (String.ofList (withType (nested shape (listTokens list)) shape type)) = .ok a := by
  refine ⟨h.exists_read_iff, fun values => Nests.listTokens_eq, fun a hread hrank => ?_⟩
  rw [ofString, String.toList_ofList]
  exact h.read_nested hread hrank

/-- A list without its last bracket is read, and so is a matrix without its rows. -/
theorem ofString_list_notNested :
    (∃ a, ofString "dense<[1, 2> : tensor<2xi32>" = .ok a) ∧ (∀ values, ¬Nests [2] values "[1, 2".toList) ∧
    (∃ a, ofString "dense<[1, 2, 3, 4]> : tensor<2x2xi32>" = .ok a) ∧
      ∀ values, ¬Nests [2, 2] values "[1, 2, 3, 4]".toList := by
  have hopen : WritesList [2] .i32 "[1, 2".toList "dense<[1, 2> : tensor<2xi32>".toList :=
    writesList_withType "[1, 2".toList rfl (by decide)
  have hflat : WritesList [2, 2] .i32 "[1, 2, 3, 4]".toList "dense<[1, 2, 3, 4]> : tensor<2x2xi32>".toList :=
    writesList_withType "[1, 2, 3, 4]".toList rfl (by decide)
  refine ⟨(ofString_list hopen).1.mpr ⟨rfl, exists_except_mapM_iff.mp ⟨_, rfl⟩⟩, fun values hnests => ?_,
    (ofString_list hflat).1.mpr ⟨rfl, exists_except_mapM_iff.mp ⟨_, rfl⟩⟩, fun values hnests => ?_⟩
  · exact absurd (hnests.count_bracket (Or.inr rfl)) (by decide)
  · exact absurd (hnests.count_bracket (Or.inl rfl)) (by decide)

end Attribute

end TensorEval
