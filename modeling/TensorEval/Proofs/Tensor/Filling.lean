import TensorEval.Proofs.Float.Truncation
import TensorEval.Proofs.Float.TwoSteps
import TensorEval.Proofs.Tensor.Report
import TensorEval.Proofs.Tensor.Widening

/-! Numbers that become tensors: as the value that a shape is filled with, as a list, and by a cast of a tensor that holds
them at full precision. -/
namespace TensorEval

namespace Element
variable {type : ElementType}

private theorem ofNumber_eq_convert (type : ElementType) (x : Double) :
    ofNumber type x = convert type (ofNumber .f64 x) := rfl

/-- An integer becomes the same element directly and from a 64-bit integer, unless there is a double on the way and single
precision at its end. -/
private theorem sameBits_ofFill_convert_iff (type : ElementType) (n : Int64) :
    type.carrier.sameBits (ofFill type (.integer n)) (convert type (ofFill .i64 (.integer n))) = true ↔
      (type = .f32 → ¬FloatWord.ShiftedByDouble n.toInt) := by
  have hinteger : ElementType.i64.carrier.toInteger (ofFill .i64 (.integer n)) = n.toInt :=
    BitVec.toInt_ofInt_eq_self (by decide) n.le_toInt n.toInt_lt
  have hdouble : ElementType.i64.carrier.toDouble (ofFill .i64 (.integer n)) = FloatWord.ofInt .binary64 n.toInt :=
    congrArg (FloatWord.ofInt .binary64) hinteger
  cases type with
  | i1 | i8 | i16 | i32 | i64 =>
    rw [convert_of_not_isFloat rfl, hinteger]
    exact iff_of_true (Carrier.sameBits_refl _ _) nofun
  | f16 | bf16 | f64 =>
    rw [convert_of_isFloat rfl, hdouble]
    exact iff_of_true (Carrier.sameBits_refl _ _) nofun
  | f32 =>
    have hsize : n.toInt.natAbs < Nat.pow 2 64 := by
      have hleast := n.le_toInt
      have hmost := n.toInt_lt
      have hpow : Nat.pow 2 64 = 18446744073709551616 := rfl
      omega
    have hnan : ElementType.f32.carrier.isNaN (ofFill .f32 (.integer n)) = false := FloatWord.not_isNaN_round _ _ _ _
    rw [convert_of_isFloat rfl, hdouble, Carrier.sameBits_iff, hnan]
    simp only [Bool.false_eq_true, false_and, or_false, forall_const]
    exact eq_comm.trans (FloatWord.single_of_double_iff hsize)

/-- The range of numbers that a type takes alike as fill values and as list entries. A fill value is true if it is not zero,
and clamped to an integer type; a list entry is truncated to a 64-bit integer first, and that is true or wrapped. -/
def FillsAsListed (x : Double) : ElementType → Prop
  | .i1 => x.isZero = true ∨ x.isNaN = false ∧ Nat.pow 2 FloatFormat.binary64.scale ≤ x.units
  | .i8 => x.TruncatesWithin 8
  | .i16 => x.TruncatesWithin 16
  | .i32 => x.TruncatesWithin 32
  | .i64 => x.TruncatesWithin 64
  | .f16 | .bf16 | .f32 | .f64 => True

private theorem ofFill_eq_ofNumber {x : Double} (h : FillsAsListed x type) :
    ofFill type (.float x) = ofNumber type x := by
  cases type with
  | i1 =>
    rw [ofNumber_of_not_isFloat rfl]
    change (!x.isZero) = decide (x.truncate 64 ≠ 0)
    rw [Bool.eq_iff_iff, decide_eq_true_iff, Ne, FloatWord.truncate_eq_zero_iff_isZero h, Bool.not_eq_true',
      Bool.not_eq_true]
  | i8 | i16 | i32 | i64 =>
    rw [ofNumber_of_not_isFloat rfl, ← FloatWord.TruncatesWithin.truncate_eq h (by decide)]
    rfl
  | f16 | bf16 | f32 | f64 => exact (if_pos rfl).symm

end Element

namespace Tensor
variable {shape : Shape} {type : ElementType}

private theorem sameBits_replicate_iff {v w : Element type} (hl : (List.replicate shape.size v).length = shape.size)
    (hl' : (List.replicate shape.size w).length = shape.size) :
    sameBits ⟨type, shape, List.replicate shape.size v, hl⟩ ⟨type, shape, List.replicate shape.size w, hl'⟩ = true ↔
      0 ∈ shape ∨ type.carrier.sameBits v w = true := by
  rw [sameBits_mk_iff, List.forall₂_iff_zip, List.zip_replicate', ← Shape.size_eq_zero, or_iff_not_imp_left]
  simp only [List.length_replicate, List.mem_replicate, Prod.mk.injEq, true_and]
  exact ⟨fun h hne => h ⟨hne, rfl, rfl⟩, fun h v' w' hmem => hmem.2.1 ▸ hmem.2.2 ▸ h hmem.1⟩

private theorem sameBits_cast_iff {x y : Tensor} (type : ElementType) :
    x.sameBits (y.cast type) = true ↔ x.sameBits (y.convert type) = true :=
  ⟨fun h => sameBits_equivalence.trans h (sameBits_cast_convert y type),
    fun h => sameBits_equivalence.trans h (sameBits_equivalence.symm (sameBits_cast_convert y type))⟩

/-- A tensor filled with an integer is the cast of the tensor that is filled with it as a 64-bit integer. With single
precision that is so for the integers that the double on the way does not shift. -/
theorem full_integer_sameBits_cast_iff (hstored : shape.Allocatable) (type : ElementType) (n : Int64) :
    ∃ x y, full shape type (.integer n) = .ok x ∧ full shape .i64 (.integer n) = .ok y ∧
      (x.sameBits (y.cast type) = true ↔ (type = .f32 → 0 ∈ shape ∨ ¬FloatWord.ShiftedByDouble n.toInt)) := by
  refine ⟨_, _, if_pos hstored, if_pos hstored, ?_⟩
  rw [sameBits_cast_iff]
  have hconvert : (List.replicate shape.size (Element.ofFill .i64 (.integer n))).map (Element.convert type) =
      List.replicate shape.size (Element.convert type (Element.ofFill .i64 (.integer n))) := List.map_replicate
  simp only [convert, elementsAs, hconvert, sameBits_replicate_iff, Element.sameBits_ofFill_convert_iff]
  tauto

/-- A number of more digits than a double has: the double next to it is in the middle of two numbers of single precision,
and so is the number. -/
theorem full_integer_sameBits_cast_middle :
    Shape.Allocatable [2] ∧ ∃ x y, full [2] .f32 (.integer 9007199791611904) = .ok x ∧
      full [2] .i64 (.integer 9007199791611904) = .ok y ∧ x.sameBits (y.cast .f32) = true := by
  have hstored : Shape.Allocatable [2] := by decide
  obtain ⟨x, y, hx, hy, hbits⟩ := full_integer_sameBits_cast_iff hstored .f32 9007199791611904
  refine ⟨hstored, x, y, hx, hy, hbits.mpr fun _ => Or.inr ?_⟩
  exact (FloatWord.single_of_double_iff (by decide)).mp (by decide +kernel)

/-- The next integer is above the middle, and the double next to it is not. -/
theorem full_integer_not_sameBits_cast :
    ∃ x y, full [] .f32 (.integer 9007199791611905) = .ok x ∧ full [] .i64 (.integer 9007199791611905) = .ok y ∧
      x.sameBits (y.cast .f32) = false :=
  ⟨_, _, rfl, rfl, by decide +kernel⟩

section Listed
variable {name : String} {numbers : List Double}

theorem exists_ofNumbers_iff :
    (∃ x, ofNumbers name shape type numbers = .ok x) ↔ shape.Allocatable ∧ numbers.length = shape.size := by
  constructor
  · rintro ⟨x, hx⟩
    unfold ofNumbers at hx
    split at hx
    · cases hx
    rename_i expected hcount
    split at hx
    · split at hx
      · rename_i hl hstored
        exact ⟨hstored, hl.trans (Shape.elementCount_eq_some hcount)⟩
      · cases hx
    · cases hx
  · rintro ⟨hstored, hl⟩
    exact ⟨_, ofNumbers_eq_ok name type hstored hl⟩

private theorem ofNumbers_of_not_allocatable (hstored : ¬shape.Allocatable) (hl : numbers.length = shape.size) :
    ofNumbers name shape type numbers = .error (.countOverflow shape) := by
  unfold ofNumbers
  split
  · rfl
  next expected hcount => rw [dif_pos (hl.trans (Shape.elementCount_eq_some hcount).symm), if_neg hstored]

/-- Numbers are listed as a tensor of any type or of none, and the tensor is the cast of the one of doubles. A number that
is repeated for every element is the fill value of a tensor. -/
theorem ofNumbers_agree (name : String) (shape : Shape) (type : ElementType) :
    (∀ numbers, (∃ x y, ofNumbers name shape type numbers = .ok x ∧ ofNumbers name shape .f64 numbers = .ok y ∧
        x.sameBits (y.cast type) = true) ∨
      ∃ failure failure', ofNumbers name shape type numbers = .error failure ∧
        ofNumbers name shape .f64 numbers = .error failure') ∧
    ∀ v, Element.FillsAsListed v type →
      (∃ x y, full shape type (.float v) = .ok x ∧
        ofNumbers name shape type (List.replicate shape.size v) = .ok y ∧ x.sameBits y = true) ∨
      full shape type (.float v) = .error (.unaddressable shape) ∧
        ofNumbers name shape type (List.replicate shape.size v) = .error (.countOverflow shape) := by
  constructor
  · intro numbers
    by_cases h : shape.Allocatable ∧ numbers.length = shape.size
    · refine Or.inl ⟨_, _, ofNumbers_eq_ok name type h.1 h.2, ofNumbers_eq_ok name .f64 h.1 h.2, ?_⟩
      have hconvert : (numbers.map (Element.ofNumber .f64)).map (Element.convert type) =
          numbers.map (Element.ofNumber type) :=
        List.map_map.trans (List.map_congr_left fun v _ => (Element.ofNumber_eq_convert type v).symm)
      simp only [sameBits_cast_iff, convert, elementsAs, hconvert]
      exact sameBits_refl _
    · have hnone (type : ElementType) : ∃ failure, ofNumbers name shape type numbers = .error failure := by
        cases hresult : ofNumbers name shape type numbers with
        | error failure => exact ⟨failure, rfl⟩
        | ok x => exact absurd (exists_ofNumbers_iff.mp ⟨x, hresult⟩) h
      obtain ⟨failure, hfailure⟩ := hnone type
      obtain ⟨failure', hfailure'⟩ := hnone .f64
      exact Or.inr ⟨failure, failure', hfailure, hfailure'⟩
  · intro v hv
    have hl : (List.replicate shape.size v).length = shape.size := List.length_replicate
    by_cases hstored : shape.Allocatable
    · refine Or.inl ⟨_, _, if_pos hstored, ofNumbers_eq_ok name type hstored hl, ?_⟩
      simp only [Element.ofFill_eq_ofNumber hv, List.map_replicate]
      exact sameBits_refl _
    · exact Or.inr ⟨if_neg hstored, ofNumbers_of_not_allocatable hstored hl⟩

end Listed

/-- The double next to 127.9, which is truncated to the greatest byte. -/
theorem ofNumbers_agree_greatestByte :
    ∃ x y, full [2] .i8 (.float (FloatWord.ofBits .binary64 0x405FF9999999999A)) = .ok x ∧
      ofNumbers "x" [2] .i8 (List.replicate 2 (FloatWord.ofBits .binary64 0x405FF9999999999A)) = .ok y ∧
      x.sameBits y = true := by
  have hfills : Element.FillsAsListed (FloatWord.ofBits .binary64 0x405FF9999999999A) .i8 := by
    change FloatWord.TruncatesWithin 8 _
    decide +kernel
  refine ((ofNumbers_agree "x" [2] .i8).2 _ hfills).resolve_right fun herror => ?_
  exact (full_eq_unaddressable.mp herror.1).1 (by decide)

end Tensor

end TensorEval
