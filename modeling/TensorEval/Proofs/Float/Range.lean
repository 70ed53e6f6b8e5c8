import TensorEval.Float.Arithmetic
import TensorEval.Proofs.Float.Rounding

/-! Arithmetic within the range of a format: which operations on finite numbers have finite results. -/
namespace TensorEval.FloatWord

variable {F : FloatFormat} {x y : FloatWord F}

theorem isFinite_iff : x.isFinite = true ↔ x.magnitude < F.infinity := decide_eq_true_iff

theorem not_isNaN_of_isFinite (h : x.isFinite = true) : x.isNaN = false :=
  decide_eq_false (Nat.not_lt.mpr (Nat.le_of_lt (isFinite_iff.mp h)))

theorem not_isInfinite_of_isFinite (h : x.isFinite = true) : x.isInfinite = false :=
  decide_eq_false (Nat.ne_of_lt (isFinite_iff.mp h))

theorem isFinite_zero (F : FloatFormat) (negative : Bool) : (zero F negative).isFinite = true := by
  cases F <;> rfl

theorem isFinite_round (negative : Bool) {num den : Nat}
    (h : num / den < Nat.pow 2 (F.fractionBits + (Nat.pow 2 F.exponentBits - 3))) :
    (round F negative num den).isFinite = true :=
  isFinite_iff.mpr (F.roundMagnitude_lt_infinity h)

/-- A rounded ratio is finite or infinite. -/
theorem isFinite_round_iff {negative : Bool} {num den : Nat} :
    (round F negative num den).isFinite = true ↔ (round F negative num den).isInfinite = false := by
  have hle : F.roundMagnitude num den ≤ F.infinity := Nat.min_le_right _ _
  rw [isFinite_iff]
  change F.roundMagnitude num den < F.infinity ↔ decide (F.roundMagnitude num den = F.infinity) = false
  rw [decide_eq_false_iff_not]
  omega

/-- The product of finite numbers is no NaN. -/
theorem isFinite_mul_iff (hx : x.isFinite = true) (hy : y.isFinite = true) :
    (x.mul y).isFinite = true ↔ (x.mul y).isInfinite = false := by
  have hmul : x.mul y = round F (x.negative != y.negative) (x.units * y.units) (Nat.pow 2 F.scale) := by
    simp [mul, not_isNaN_of_isFinite hx, not_isNaN_of_isFinite hy, not_isInfinite_of_isFinite hx,
      not_isInfinite_of_isFinite hy]
  rw [hmul]
  exact isFinite_round_iff

/-- The quotient of a finite number by a number from two on is finite. -/
theorem isFinite_div (hx : x.isFinite = true) (hy : y.isFinite = true) (htwo : 2 * Nat.pow 2 F.scale ≤ y.units) :
    (x.div y).isFinite = true := by
  have hscale : 0 < Nat.pow 2 F.scale := Nat.two_pow_pos _
  have hzero : y.isZero = false := by
    refine decide_eq_false fun h => ?_
    have hunits : y.units = 0 := by
      rw [units, h, FloatFormat.units, Nat.zero_div, Nat.zero_mod]
      rfl
    omega
  have hdiv : x.div y = round F (x.negative != y.negative) (x.units * Nat.pow 2 F.scale) y.units := by
    simp [div, not_isNaN_of_isFinite hx, not_isNaN_of_isFinite hy, not_isInfinite_of_isFinite hx,
      not_isInfinite_of_isFinite hy, hzero]
  rw [hdiv]
  refine isFinite_round _ ?_
  have hunits : x.units < 2 * Nat.pow 2 (F.fractionBits + (Nat.pow 2 F.exponentBits - 3)) :=
    F.units_lt (isFinite_iff.mp hx)
  calc x.units * Nat.pow 2 F.scale / y.units
      ≤ x.units * Nat.pow 2 F.scale / (2 * Nat.pow 2 F.scale) := Nat.div_le_div_left htwo (by omega)
    _ = x.units / 2 := Nat.mul_div_mul_right _ _ hscale
    _ < Nat.pow 2 (F.fractionBits + (Nat.pow 2 F.exponentBits - 3)) := by omega

/-- Words are in the range of double precision. -/
theorem isFinite_ofInt {n : Int} (h : n.natAbs ≤ Nat.pow 2 64) : (ofInt .binary64 n).isFinite = true := by
  refine isFinite_round _ ?_
  rw [Nat.div_one]
  exact Nat.lt_of_le_of_lt (Nat.mul_le_mul_right _ h) (by decide +kernel)

end TensorEval.FloatWord
