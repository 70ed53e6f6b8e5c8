import TensorEval.Proofs.Outcome
import TensorEval.Tensor.Basic
import TensorEval.Tensor.Limit

/-! Storage for the shapes that pass the size check: it exists unless a zero dimension hides from the
element count that the other dimensions exceed what can be addressed. -/
namespace TensorEval

namespace Shape

/-- A zero dimension stands in the shape before the element count overflows, so the count is zero, and yet
the dimensions that are not zero exceed what can be addressed. -/
def HidesOverflow (s : Shape) : Prop :=
  (∃ before after, s = before ++ 0 :: after ∧ 0 ∉ before ∧ size before < wordBound) ∧
    signedBound ≤ s.nonzeroSize

theorem size_cons (d : Nat) (s : Shape) : size (d :: s) = d * size s := rfl

theorem size_eq_zero {s : Shape} : s.size = 0 ↔ 0 ∈ s := by
  induction s with
  | nil => simp [size]
  | cons d ds ih => rw [size_cons, Nat.mul_eq_zero, ih, List.mem_cons, eq_comm]

theorem nonzeroSize_eq_size {s : Shape} (h : s.size ≠ 0) : s.nonzeroSize = s.size := by
  unfold nonzeroSize
  rw [List.filter_eq_self.mpr]
  intro d hd
  have hne : d ≠ 0 := fun hzero => h (size_eq_zero.mpr (hzero ▸ hd))
  simpa using hne

theorem nonzeroSize_cons (d : Nat) (s : Shape) : nonzeroSize (d :: s) = (if d = 0 then 1 else d) * nonzeroSize s := by
  unfold nonzeroSize
  by_cases hd : d = 0
  · rw [List.filter_cons_of_neg (by simpa using hd), if_pos hd, Nat.one_mul]
  · rw [List.filter_cons_of_pos (by simpa using hd), if_neg hd, size_cons]

theorem nonzeroSize_pos (s : Shape) : 0 < s.nonzeroSize := by
  induction s with
  | nil => decide
  | cons d ds ih =>
    rw [nonzeroSize_cons]
    refine Nat.mul_pos ?_ ih
    split <;> omega

/-- Dimensions of storage are words with a sign. -/
theorem Allocatable.dim_lt {s : Shape} (h : s.Allocatable) {d : Nat} (hd : d ∈ s) : d < signedBound := by
  unfold Allocatable at h
  induction s with
  | nil => exact absurd hd List.not_mem_nil
  | cons e es ih =>
    have hpos := nonzeroSize_pos es
    rw [nonzeroSize_cons] at h
    have hfactor : (if e = 0 then 1 else e) < signedBound := Nat.lt_of_le_of_lt (Nat.le_mul_of_pos_right _ hpos) h
    rcases List.mem_cons.mp hd with rfl | hd
    · split at hfactor <;> omega
    · refine ih (Nat.lt_of_le_of_lt (Nat.le_mul_of_pos_left _ ?_) h) hd
      split <;> omega

private theorem foldlM_zero (s : Shape) : s.foldlM checkedMul 0 = some 0 := by
  induction s with
  | nil => rfl
  | cons d ds ih =>
    rw [List.foldlM_cons, checkedMul, Nat.zero_mul, if_pos (by decide)]
    exact ih

-- A factor that is not zero only shrinks the room for the dimensions before the first zero.
private theorem foldlM_eq_zero_iff {s : Shape} {a : Nat} (ha : a ≠ 0) (hword : a < wordBound) :
    s.foldlM checkedMul a = some 0 ↔
      ∃ before after, s = before ++ 0 :: after ∧ 0 ∉ before ∧ a * size before < wordBound := by
  induction s generalizing a with
  | nil => simpa using ha
  | cons d ds ih =>
    rw [List.foldlM_cons, checkedMul]
    by_cases hd : d = 0
    · subst hd
      rw [Nat.mul_zero, if_pos (by decide)]
      refine ⟨fun _ => ⟨[], ds, rfl, by simp, by simpa [size] using hword⟩, fun _ => foldlM_zero ds⟩
    · have hsplit (P : Shape → Prop) : (∃ before after, d :: ds = before ++ 0 :: after ∧ 0 ∉ before ∧ P before) ↔
          ∃ before after, ds = before ++ 0 :: after ∧ 0 ∉ before ∧ P (d :: before) := by
        constructor
        · rintro ⟨before, after, heq, hnot, hp⟩
          cases before with
          | nil => exact absurd (List.cons.inj heq).1 hd
          | cons b before =>
            rw [List.cons_append, List.cons.injEq] at heq
            obtain ⟨rfl, heq⟩ := heq
            exact ⟨before, after, heq, fun h => hnot (List.mem_cons_of_mem _ h), hp⟩
        · rintro ⟨before, after, rfl, hnot, hp⟩
          exact ⟨d :: before, after, rfl, by simpa [eq_comm, hd] using hnot, hp⟩
      rw [hsplit]
      by_cases hfits : a * d < wordBound
      · rw [if_pos hfits]
        simp only [size_cons, ← Nat.mul_assoc]
        exact ih (Nat.mul_ne_zero ha hd) hfits
      · rw [if_neg hfits]
        refine ⟨fun h => by simp at h, ?_⟩
        rintro ⟨before, after, -, hnot, hlt⟩
        have hpos : 0 < size before := Nat.pos_of_ne_zero fun h => hnot (size_eq_zero.mp h)
        have hle : a * d ≤ a * (d * size before) := Nat.mul_le_mul_left a (Nat.le_mul_of_pos_right d hpos)
        exact absurd (Nat.lt_of_le_of_lt hle hlt) hfits

theorem elementCount_eq_zero_iff {s : Shape} :
    s.elementCount = some 0 ↔
      ∃ before after, s = before ++ 0 :: after ∧ 0 ∉ before ∧ size before < wordBound := by
  unfold elementCount
  simpa only [Nat.one_mul] using foldlM_eq_zero_iff (s := s) Nat.one_ne_zero (by decide)

private theorem foldlM_of_lt {s : Shape} {a : Nat} (h : a * s.nonzeroSize < wordBound) :
    s.foldlM checkedMul a = some (a * s.size) := by
  induction s generalizing a with
  | nil => simp [size]
  | cons d ds ih =>
    have hpos := nonzeroSize_pos ds
    rw [nonzeroSize_cons, ← Nat.mul_assoc] at h
    have hfactor : a * d * nonzeroSize ds < wordBound := by
      refine Nat.lt_of_le_of_lt (Nat.mul_le_mul_right _ (Nat.mul_le_mul_left a ?_)) h
      split <;> omega
    rw [List.foldlM_cons, checkedMul, if_pos (Nat.lt_of_le_of_lt (Nat.le_mul_of_pos_right _ hpos) hfactor), size_cons,
      ← Nat.mul_assoc]
    exact ih hfactor

/-- Storage has as many elements as the shape asks for. -/
theorem Allocatable.elementCount_eq {s : Shape} (h : s.Allocatable) : s.elementCount = some s.size := by
  unfold elementCount
  rw [foldlM_of_lt, Nat.one_mul]
  rw [Nat.one_mul]
  exact Nat.lt_trans h (by decide)

/-- Of the shapes within a limit, those that hide an overflow are the ones without storage. -/
theorem not_allocatable_iff {limit : Nat} {s : Shape} {type : ElementType} (hlimit : limit < signedBound)
    (h : checkSize limit s type = .ok ()) : ¬ s.Allocatable ↔ s.HidesOverflow := by
  obtain ⟨length, hlength, hle⟩ := checkSize_eq_ok_iff.mp h
  obtain ⟨count, hcount, hmul⟩ := Option.bind_eq_some_iff.mp hlength
  have hsize := elementCount_eq_some hcount
  unfold Allocatable HidesOverflow
  rw [Nat.not_lt, ← elementCount_eq_zero_iff, hcount]
  by_cases hzero : count = 0
  · simp [hzero]
  · -- Without a zero dimension the bytes bound the elements.
    have hwidth : 0 < type.byteWidth := by cases type <;> decide
    have hbytes : count * type.byteWidth = length := by
      unfold checkedMul at hmul
      split at hmul
      · simpa using hmul
      · simp at hmul
    have hcount_le : count ≤ length := hbytes ▸ Nat.le_mul_of_pos_right count hwidth
    have hnonzero : s.nonzeroSize = count := by rw [nonzeroSize_eq_size (hsize ▸ hzero), hsize]
    simp only [hnonzero, Option.some.injEq, hzero, false_and, iff_false]
    omega

end Shape

namespace Tensor

theorem full_eq_unaddressable {shape s : Shape} {type : ElementType} {fill : Fill} :
    full shape type fill = .error (.unaddressable s) ↔ ¬ shape.Allocatable ∧ shape = s := by
  unfold full
  by_cases h : shape.Allocatable <;> simp [h]

end Tensor

end TensorEval
