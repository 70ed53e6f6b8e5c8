import Mathlib.Data.Option.Basic
import TensorEval.Proofs.Element.Widening
import TensorEval.Proofs.Float.Text
import TensorEval.Proofs.Tensor.Index
import TensorEval.Proofs.Text.Separated
import TensorEval.Run.Report

/-! Tensors in text reports. The line of an output tells its name, its doubles and so its elements, unless these are words
of 64 bits: of those the line has the nearest doubles. -/
namespace TensorEval

private theorem Element.eq_of_toDouble_eq {t : ElementType} (ht : t ≠ .i64) {v w : Element t}
    (hw : t.carrier.isNaN w = false)
    (h : t.carrier.toDouble v = t.carrier.toDouble w) : v = w := by
  have hfits : t.carrier.FitsIn ElementType.f64.carrier := by
    revert ht
    cases t <;> decide
  have hdouble : convert .f64 v = convert .f64 w := by rw [convert_of_isFloat rfl, h, convert_of_isFloat rfl]
  have hv := Carrier.sameBits_symm (sameBits_convert_convert hfits v)
  rw [hdouble] at hv
  exact Carrier.eq_of_sameBits (Carrier.sameBits_trans hv (sameBits_convert_convert hfits w)) hw

section Doubles
variable {xs ys : List Double}

private def itemsText (xs : List Double) : List Char := [',', ' '].intercalate (xs.map DecimalStyle.display.text)

private theorem toList_listedDoubles (xs : List Double) :
    (listedDoubles xs).toList = '[' :: (itemsText xs ++ [']']) := by
  simp [listedDoubles, itemsText, String.toList_intercalate, Function.comp_def]

private theorem not_mem_text {c : Char} (hc : c = ',' ∨ c = '[') (hxs : ∀ x ∈ xs, x.isNaN = false) :
    ∀ cs ∈ xs.map DecimalStyle.display.text, c ∉ cs := by
  intro _ hcs hmem
  obtain ⟨x, hx, rfl⟩ := List.mem_map.mp hcs
  rcases DecimalStyle.display.mem_text (hxs x hx) hmem with hnumeral | hletter
  · rcases hc with rfl | rfl <;> exact Bool.false_ne_true hnumeral
  · rcases hc with rfl | rfl <;> exact absurd hletter (by decide)

private theorem not_mem_itemsText (hxs : ∀ x ∈ xs, x.isNaN = false) : '[' ∉ itemsText xs ++ [']'] := by
  intro hmem
  rcases List.mem_append.mp hmem with hmem | hmem
  · rcases Text.mem_intercalate hmem with hmem | ⟨cs, hcs, hmem⟩
    · exact absurd hmem (by decide)
    · exact not_mem_text (Or.inr rfl) hxs cs hcs hmem
  · exact absurd hmem (by decide)

private theorem map_readDouble_text (hxs : ∀ x ∈ xs, x.isNaN = false) :
    (xs.map DecimalStyle.display.text).map FloatWord.readDouble = xs.map some := by
  rw [List.map_map]
  exact List.map_congr_left fun x hx => FloatWord.readDouble_text _ (hxs x hx)

private theorem itemsText_inj (hlength : xs.length = ys.length) (hxs : ∀ x ∈ xs, x.isNaN = false)
    (hys : ∀ y ∈ ys, y.isNaN = false) : itemsText xs = itemsText ys ↔ xs = ys := by
  rw [itemsText, itemsText, Text.intercalate_inj (by simpa using hlength) (not_mem_text (Or.inl rfl) hxs)
    (not_mem_text (Or.inl rfl) hys)]
  refine ⟨fun h => ?_, congrArg _⟩
  have hread := congrArg (List.map FloatWord.readDouble) h
  rw [map_readDouble_text hxs, map_readDouble_text hys] at hread
  exact List.map_injective_iff.mpr (Option.some_injective _) hread

end Doubles

section Line
variable {x y : Tensor}

def Tensor.IsNumeric (x : Tensor) : Prop := ∀ v ∈ x.elements, x.type.carrier.isNaN v = false

private theorem Tensor.IsNumeric.toDoubles (h : x.IsNumeric) : ∀ v ∈ x.toDoubles, v.isNaN = false := by
  intro _ hv
  obtain ⟨v, hmem, rfl⟩ := List.mem_map.mp hv
  exact Element.not_isNaN_toDouble (h v hmem)

private theorem toList_outputLine (name : String) (x : Tensor) : (outputLine name x).toList =
    ("  - ".toList ++ name.toList ++ (": " ++ x.typeText ++ " ").toList) ++ '[' :: (itemsText x.toDoubles ++ [']']) := by
  have hline : outputLine name x = "  - " ++ name ++ (": " ++ x.typeText ++ " ") ++ listedDoubles x.toDoubles := by
    simp only [outputLine, Tensor.valuesText, toString, String.append_assoc]
  rw [hline, ← toList_listedDoubles, String.toList_append, String.toList_append, String.toList_append]

/-- A line tells the name and the doubles of a tensor of known type and shape. -/
theorem outputLine_inj (htype : x.type = y.type) (hshape : x.shape = y.shape) (hx : x.IsNumeric) (hy : y.IsNumeric)
    (name name' : String) : outputLine name x = outputLine name' y ↔ name = name' ∧ x.toDoubles = y.toDoubles := by
  have hlength : x.toDoubles.length = y.toDoubles.length := by
    rw [Tensor.toDoubles, Tensor.toDoubles, List.length_map, List.length_map, x.length_elements, y.length_elements, hshape]
  have htext : x.typeText = y.typeText := by rw [Tensor.typeText, Tensor.typeText, htype, hshape]
  rw [← String.toList_inj, toList_outputLine, toList_outputLine, Text.append_cons_inj_right
    (not_mem_itemsText hx.toDoubles) (not_mem_itemsText hy.toDoubles), htext, List.append_cancel_right_eq,
    List.append_cancel_left_eq, List.append_cancel_right_eq, String.toList_inj,
    itemsText_inj hlength hx.toDoubles hy.toDoubles]

private theorem Tensor.toDoubles_eq_iff (htype : x.type = y.type) (hshape : x.shape = y.shape) (hy : y.IsNumeric) :
    x.toDoubles = y.toDoubles ↔ x.sameBits y = true ∨ x.type = .i64 ∧ x.toDoubles = y.toDoubles := by
  obtain ⟨type, shape, xs, hxs⟩ := x
  obtain ⟨_, _, ys, hys⟩ := y
  dsimp only at htype hshape
  subst htype hshape
  rw [sameBits_mk_iff_eq hxs hys hy]
  constructor
  · intro hdoubles
    by_cases hword : type = .i64
    · exact Or.inr ⟨hword, hdoubles⟩
    · refine Or.inl (List.ext_get (hxs.trans hys.symm) fun k hkx hky => ?_)
      refine Element.eq_of_toDouble_eq hword (hy _ (List.get_mem _ _)) ?_
      have hk := congrArg (·[k]?) hdoubles
      simpa [toDoubles, hkx, hky] using hk
  · rintro (rfl | ⟨-, hdoubles⟩)
    · rfl
    · exact hdoubles

/-- The lines of two tensors without NaNs, of one type and shape, are the same exactly if the names and the bits are, or if
the elements are words of 64 bits whose nearest doubles are the same. -/
theorem outputLine_eq_iff (htype : x.type = y.type) (hshape : x.shape = y.shape) (hx : x.IsNumeric) (hy : y.IsNumeric)
    (name name' : String) : outputLine name x = outputLine name' y ↔
      name = name' ∧ (x.sameBits y = true ∨ x.type = .i64 ∧ x.toDoubles = y.toDoubles) := by
  rw [outputLine_inj htype hshape hx hy, ← Tensor.toDoubles_eq_iff htype hshape hy]

/-- The sign of a zero shows in the line. -/
theorem outputLine_zeros :
    let positive : Tensor := ⟨.f32, [1], [FloatWord.zero .binary32 false], rfl⟩
    let negative : Tensor := ⟨.f32, [1], [FloatWord.zero .binary32 true], rfl⟩
    positive.type = negative.type ∧ positive.shape = negative.shape ∧ positive.IsNumeric ∧ negative.IsNumeric ∧
      outputLine "y" positive ≠ outputLine "y" negative := by
  intro positive negative
  have hpositive : positive.IsNumeric := List.forall_mem_singleton.mpr rfl
  have hnegative : negative.IsNumeric := List.forall_mem_singleton.mpr rfl
  refine ⟨rfl, rfl, hpositive, hnegative, fun hline => ?_⟩
  obtain ⟨-, hbits | ⟨hword, -⟩⟩ :=
    (outputLine_eq_iff (x := positive) (y := negative) rfl rfl hpositive hnegative "y" "y").mp hline
  · exact absurd hbits (by decide)
  · cases hword

/-- The first word that is no double has the line of the one before it. -/
theorem outputLine_oddWord :
    let even : Tensor := ⟨.i64, [], [9007199254740992#64], rfl⟩
    let odd : Tensor := ⟨.i64, [], [9007199254740993#64], rfl⟩
    even.type = odd.type ∧ even.shape = odd.shape ∧ even.IsNumeric ∧ odd.IsNumeric ∧ even.sameBits odd = false ∧
      ∀ name, outputLine name even = outputLine name odd := by
  intro even odd
  have hdoubles : even.toDoubles = odd.toDoubles := by decide +kernel
  refine ⟨rfl, rfl, List.forall_mem_singleton.mpr rfl, List.forall_mem_singleton.mpr rfl, by decide, fun name => ?_⟩
  rw [outputLine, outputLine, Tensor.valuesText, hdoubles]
  rfl

end Line

end TensorEval
