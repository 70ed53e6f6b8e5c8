import TensorEval.Float.Decimal
import TensorEval.Proofs.Float.Rounding

/-! Decimals and doubles: the shortest decimal of a finite double reads back as that double, and only the value of a
decimal counts, not how its digits and exponent spell it. -/
namespace TensorEval

namespace Decimal

private theorem pow_pos (n : Nat) : 0 < Nat.pow 10 n := Nat.pow_pos (by decide)

private theorem pow_add (m n : Nat) : Nat.pow 10 (m + n) = Nat.pow 10 m * Nat.pow 10 n := Nat.pow_add 10 m n

private theorem pow_le_pow {m n : Nat} (h : m ≤ n) : Nat.pow 10 m ≤ Nat.pow 10 n := Nat.pow_le_pow_right (by decide) h

private theorem two_pow_le_pow (n : Nat) : Nat.pow 2 n ≤ Nat.pow 10 n := Nat.pow_le_pow_left (by decide) n

private theorem ratio_den_pos (d : Decimal) : 0 < (d.ratio .binary64).2 := pow_pos _

/-- Beyond the largest exponents every digit makes the ratio too large for a double. -/
private theorem roundMagnitude_of_huge {d : Decimal} (hd : d.digits ≠ 0) (he : (hugeExponent : Int) ≤ d.exponent) :
    FloatFormat.binary64.roundMagnitude (d.ratio .binary64).1 (d.ratio .binary64).2 =
      FloatFormat.binary64.infinity := by
  apply FloatFormat.roundMagnitude_eq_infinity
  have hden : (d.ratio .binary64).2 = 1 := by
    have hexp : (-d.exponent).toNat = 0 := by
      unfold hugeExponent at he
      omega
    change Nat.pow 10 (-d.exponent).toNat = 1
    rw [hexp]
  rw [hden, Nat.div_one]
  have hpow : Nat.pow 10 hugeExponent ≤ Nat.pow 10 d.exponent.toNat := pow_le_pow (by omega)
  have hdigits : Nat.pow 10 d.exponent.toNat ≤ d.digits * Nat.pow 10 d.exponent.toNat :=
    Nat.le_mul_of_pos_left _ (by omega)
  have hbound : Nat.pow 2 (FloatFormat.binary64.fractionBits + (Nat.pow 2 FloatFormat.binary64.exponentBits - 2)) ≤
      Nat.pow 10 hugeExponent * Nat.pow 2 FloatFormat.binary64.scale := by decide +kernel
  exact Nat.le_trans hbound (Nat.mul_le_mul_right _ (Nat.le_trans hpow hdigits))

/-- Below the smallest exponents the ratio stays under one half. -/
private theorem roundMagnitude_of_tiny {d : Decimal} (he : d.exponent + (d.digits.log2 + 1) ≤ -hugeExponent) :
    FloatFormat.binary64.roundMagnitude (d.ratio .binary64).1 (d.ratio .binary64).2 = 0 := by
  apply FloatFormat.roundMagnitude_eq_zero
  have hnum : (d.ratio .binary64).1 = d.digits * Nat.pow 2 FloatFormat.binary64.scale := by
    have hexp : d.exponent.toNat = 0 := by
      unfold hugeExponent at he
      omega
    change d.digits * Nat.pow 10 d.exponent.toNat * _ = _
    rw [hexp]
    change d.digits * 1 * _ = _
    rw [Nat.mul_one]
  have hdigits : d.digits < Nat.pow 10 (d.digits.log2 + 1) :=
    Nat.lt_of_lt_of_le Nat.lt_log2_self (two_pow_le_pow _)
  have hden : Nat.pow 10 hugeExponent * Nat.pow 10 (d.digits.log2 + 1) ≤ (d.ratio .binary64).2 := by
    rw [← pow_add]
    exact pow_le_pow (by omega)
  have hbound : 2 * Nat.pow 2 FloatFormat.binary64.scale ≤ Nat.pow 10 hugeExponent := by decide +kernel
  calc
    2 * (d.ratio .binary64).1 = 2 * Nat.pow 2 FloatFormat.binary64.scale * d.digits := by
      rw [hnum, Nat.mul_comm d.digits, Nat.mul_assoc]
    _ < 2 * Nat.pow 2 FloatFormat.binary64.scale * Nat.pow 10 (d.digits.log2 + 1) :=
      Nat.mul_lt_mul_of_pos_left hdigits (by decide +kernel)
    _ ≤ Nat.pow 10 hugeExponent * Nat.pow 10 (d.digits.log2 + 1) := Nat.mul_le_mul_right _ hbound
    _ ≤ _ := hden

/-- The answers given without powers are those of the ratio. -/
theorem magnitude_eq (d : Decimal) :
    d.magnitude = FloatFormat.binary64.roundMagnitude (d.ratio .binary64).1 (d.ratio .binary64).2 := by
  simp only [magnitude]
  split
  next hd =>
    have hnum : (d.ratio .binary64).1 = 0 := by simp [ratio, hd]
    rw [hnum]
    exact (FloatFormat.roundMagnitude_eq_zero _ (ratio_den_pos d)).symm
  next hd =>
    split
    next he => exact (roundMagnitude_of_huge hd he).symm
    next =>
      split
      next he => exact (roundMagnitude_of_tiny he).symm
      next => rfl

/-- Trailing zeros of the digits count as much in the exponent. -/
theorem magnitude_mul_pow (digits k : Nat) (exponent : Int) :
    magnitude ⟨digits * Nat.pow 10 k, exponent - k⟩ = magnitude ⟨digits, exponent⟩ := by
  rw [magnitude_eq, magnitude_eq]
  apply FloatFormat.roundMagnitude_congr _ (ratio_den_pos _) (ratio_den_pos _)
  simp only [ratio]
  have hexp : k + (exponent - k).toNat + (-exponent).toNat = exponent.toNat + (-(exponent - k)).toNat := by omega
  have hpow : Nat.pow 10 k * Nat.pow 10 (exponent - k).toNat * Nat.pow 10 (-exponent).toNat =
      Nat.pow 10 exponent.toNat * Nat.pow 10 (-(exponent - k)).toNat := by
    rw [← pow_add, ← pow_add, ← pow_add, hexp]
  calc
    _ = digits * Nat.pow 2 FloatFormat.binary64.scale *
        (Nat.pow 10 k * Nat.pow 10 (exponent - k).toNat * Nat.pow 10 (-exponent).toNat) := by
      simp only [Nat.mul_assoc, Nat.mul_left_comm, Nat.mul_comm]
    _ = digits * Nat.pow 2 FloatFormat.binary64.scale *
        (Nat.pow 10 exponent.toNat * Nat.pow 10 (-(exponent - k)).toNat) := by rw [hpow]
    _ = _ := by simp only [Nat.mul_assoc, Nat.mul_left_comm, Nat.mul_comm]

private theorem magnitude_nearestOnGrid {rule : TieRule} {m num den : Nat} {exponent : Int} {d : Decimal}
    (h : nearestOnGrid rule m num den exponent = some d) : d.magnitude = m := by
  simp only [nearestOnGrid] at h
  split at h
  next hbelow =>
    split at h
    next habove =>
      obtain rfl := Option.some.inj h
      exact habove.1
    next =>
      obtain rfl := Option.some.inj h
      exact hbelow
  next =>
    split at h
    next habove =>
      obtain rfl := Option.some.inj h
      exact habove
    next => exact nomatch h

private theorem pow_eq_mul (n : Nat) : Nat.pow 10 n = Nat.pow 5 n * Nat.pow 2 n := Nat.mul_pow 5 2 n

private theorem steps_finest (units : Nat) :
    steps units (-FloatFormat.binary64.scale) =
      (units * Nat.pow 5 FloatFormat.binary64.scale * Nat.pow 2 FloatFormat.binary64.scale,
        Nat.pow 2 FloatFormat.binary64.scale) := by
  unfold steps
  generalize FloatFormat.binary64.scale = s
  have hneg : (-(s : Int)).toNat = 0 := by omega
  have hpos : (- -(s : Int)).toNat = s := by omega
  have hone : Nat.pow 10 0 = 1 := rfl
  rw [hneg, hpos, hone, Nat.mul_one, pow_eq_mul, Nat.mul_assoc]

/-- On the grid as fine as the least positive double every finite double is a point. -/
private theorem magnitude_finest {m : Nat} (hm : m ≤ FloatFormat.binary64.infinity) :
    magnitude ⟨FloatFormat.binary64.units m * Nat.pow 5 FloatFormat.binary64.scale,
      -FloatFormat.binary64.scale⟩ = m := by
  rw [magnitude_eq, ratio]
  generalize FloatFormat.binary64.scale = s
  have hneg : (-(s : Int)).toNat = 0 := by omega
  have hpos : (- -(s : Int)).toNat = s := by omega
  have hone : Nat.pow 10 0 = 1 := rfl
  rw [hneg, hpos, hone, Nat.mul_one, Nat.mul_assoc, ← pow_eq_mul]
  exact FloatFormat.roundMagnitude_units _ hm (pow_pos _)

private theorem magnitude_searchFrom (rule : TieRule) {m : Nat} (hm : m ≤ FloatFormat.binary64.infinity) (finer : Nat) :
    ∀ exponent : Int, exponent = finer - FloatFormat.binary64.scale →
      (searchFrom rule m (FloatFormat.binary64.units m) finer exponent).magnitude = m := by
  induction finer with
  | zero =>
    intro exponent he
    have hexp : exponent = -FloatFormat.binary64.scale := by omega
    have hdiv (units s : Nat) : units * Nat.pow 2 s / Nat.pow 2 s = units := Nat.mul_div_cancel _ (Nat.two_pow_pos s)
    simp only [searchFrom, hexp, steps_finest, hdiv]
    exact magnitude_finest hm
  | succ finer ih =>
    intro exponent he
    simp only [searchFrom]
    split
    next d hd => exact magnitude_nearestOnGrid hd
    next => exact ih (exponent - 1) (by omega)

private theorem neg_scale_le_startExponent (units : Nat) :
    -(FloatFormat.binary64.scale : Int) ≤ startExponent units := by
  have hscale : FloatFormat.binary64.scale = 1074 := rfl
  simp only [startExponent, hscale, Int.fdiv_eq_ediv_of_nonneg _ (show (0 : Int) ≤ 100000 by decide)]
  omega

/-- The shortest decimal of a finite double reads back as that double. -/
theorem magnitude_shortest (rule : TieRule) {x : Double} (hx : x.isFinite = true) :
    (shortest rule x).magnitude = x.magnitude := by
  have hfinite : x.magnitude < FloatFormat.binary64.infinity := by
    simpa [FloatWord.isFinite] using hx
  have hstart := neg_scale_le_startExponent x.units
  apply magnitude_searchFrom rule (Nat.le_of_lt hfinite)
  omega

end Decimal

end TensorEval
