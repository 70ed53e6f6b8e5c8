import TensorEval.Proofs.Attribute.Rows

/-! The list of a dense literal as it is written: the values of a shape stand in it row by row, and they are the tokens it
is read as. No index on the way leaves a word, and no row leaves the values it is a part of. -/
namespace TensorEval.Attribute

def valueText (type : ElementType) : Fill → List Char
  | .float x => floatText type x
  | .integer n => integerText type n

private theorem token_valueText (type : ElementType) (value : Fill) : Token (valueText type value) := by
  cases value with
  | float x => exact token_floatText type x
  | integer n => exact token_integerText type n

inductive RowFault where
  /-- An index does not fit a word. -/
  | overflow
  /-- A row is not a part of the values. -/
  | outOfRange
  /-- There is no value to write. -/
  | missing

def wordIndex (n : Nat) : Except RowFault Nat := if n < wordBound then .ok n else .error .overflow

def checkedRow (stride : Nat) (values : List (List Char)) (i : Nat) : Except RowFault (List (List Char)) := do
  let start ← wordIndex (i * stride)
  let next ← wordIndex (i + 1)
  let stop ← wordIndex (next * stride)
  if start ≤ stop ∧ stop ≤ values.length then return (values.drop start).take (stop - start)
  else throw .outOfRange

/-- `nested` with its indices and rows checked: it stops at an index that does not fit a word, at a row that is not a part
of the values, and where a value is missing. -/
def checkedNested : Shape → List (List Char) → Except RowFault (List Char)
  | [], [] => .error .missing
  | [], text :: _ => .ok text
  | d :: rest, values => do
    let rows ← (List.range d).mapM fun i => do
      let row ← checkedRow ((Shape.elementCount rest).getD 0) values i
      checkedNested rest row
    return '[' :: commaSeparated rows ++ [']']

private theorem checkedRow_eq {values : List (List Char)} {stride d i : Nat} (hlen : values.length = d * stride)
    (hi : i < d) (hd : d < wordBound) (hcount : values.length < wordBound) :
    checkedRow stride values i = .ok ((values.drop (i * stride)).take stride) := by
  have hword {n : Nat} (hn : n < wordBound) : wordIndex n = .ok n := if_pos hn
  obtain ⟨hstop, -⟩ := slice_row hlen hi
  have hstart : i * stride ≤ (i + 1) * stride := Nat.mul_le_mul_right stride (Nat.le_succ i)
  have hwidth : (i + 1) * stride - i * stride = stride := by rw [Nat.succ_mul, Nat.add_sub_cancel_left]
  rw [checkedRow, hword (by omega), except_ok_bind, hword (by omega), except_ok_bind, hword (by omega), except_ok_bind,
    if_pos ⟨hstart, hstop⟩, hwidth]
  rfl

theorem checkedNested_eq {shape : Shape} {texts : List (List Char)} (hcount : shape.elementCount = some texts.length) :
    checkedNested shape texts = .ok (nested shape texts) := by
  induction shape generalizing texts with
  | nil =>
    have hone : texts.length = 1 := (Option.some.inj hcount).symm
    obtain ⟨t, rfl⟩ := List.length_eq_one_iff.mp hone
    rfl
  | cons d rest ih =>
    rcases Nat.eq_zero_or_pos d with rfl | hd
    · rfl
    · obtain ⟨stride, hstride, hlen⟩ := Shape.elementCount_cons hd hcount
      have hrows : (List.range d).mapM (fun i => do
          let row ← checkedRow stride texts i
          checkedNested rest row) =
            .ok ((List.range d).map fun i => nested rest ((texts.drop (i * stride)).take stride)) := by
        rw [except_mapM_eq_ok, List.forall₂_map_right_iff, List.forall₂_same]
        intro i hi
        have hi := List.mem_range.mp hi
        rw [checkedRow_eq hlen hi (Shape.dim_lt_of_elementCount hcount) (Shape.elementCount_lt hcount), except_ok_bind]
        apply ih
        rw [hstride, (slice_row hlen hi).2]
      rw [checkedNested, hstride, Option.getD_some, hrows, nested_cons hstride hlen]
      rfl

/-- The list that is written for a shape and as many values as it has elements: every list in it has as many items as its
dimension tells, the values follow each other row by row, the tokens it is read as are the values, and none of the checks
of its indices and rows fails. -/
theorem nested_rowMajor {shape : Shape} {values : List Fill} (hcount : shape.elementCount = some values.length)
    (type : ElementType) :
    RowMajor shape (values.map (valueText type)) (nested shape (values.map (valueText type))) ∧
      listTokens (nested shape (values.map (valueText type))) = values.map (valueText type) ∧
      checkedNested shape (values.map (valueText type)) = .ok (nested shape (values.map (valueText type))) := by
  have hlen : shape.elementCount = some (values.map (valueText type)).length := by rw [List.length_map, hcount]
  have hvalues : ∀ t ∈ values.map (valueText type), Nests [] [t] t := by
    intro t ht
    obtain ⟨value, -, rfl⟩ := List.mem_map.mp ht
    exact .of_token (token_valueText type value)
  exact ⟨rowMajor_nested hlen, (nests_nested hlen hvalues).listTokens_eq, checkedNested_eq hlen⟩

/-- Two rows of half precision, and two empty lists before dimensions whose product is no word. -/
theorem nested_rowMajor_rows_hiddenOverflow :
    let infinity : Fill := .float (.ofBits .binary64 0x7FF0000000000000)
    let texts := [infinity, .integer (-3), .integer 0, infinity].map (valueText .f16)
    let hidden : Shape := [2, 0, 9223372036854775808, 4]
    Shape.elementCount [2, 2] = some 4 ∧ nested [2, 2] texts = "[[0x7C00, -3], [0, 0x7C00]]".toList ∧
      RowMajor [2, 2] texts (nested [2, 2] texts) ∧ listTokens (nested [2, 2] texts) = texts ∧
      checkedNested [2, 2] texts = .ok (nested [2, 2] texts) ∧
    Shape.elementCount hidden = some 0 ∧ Shape.elementCount hidden.tail.tail = none ∧
      RowMajor hidden [] "[[], []]".toList ∧ checkedNested hidden [] = .ok "[[], []]".toList := by
  intro infinity texts hidden
  obtain ⟨hrows, htokens, hchecked⟩ :=
    @nested_rowMajor [2, 2] [infinity, .integer (-3), .integer 0, infinity] rfl .f16
  obtain ⟨hnone, -, hnoneChecked⟩ := @nested_rowMajor hidden [] rfl .f16
  exact ⟨rfl, rfl, hrows, htokens, hchecked, rfl, rfl, hnone, hnoneChecked⟩

end TensorEval.Attribute
