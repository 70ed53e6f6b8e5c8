import TensorEval.Float.Rounding

/-! Rounding a ratio to a format: only the value of the ratio counts, numbers of the format stay as they are, and
ratios far outside of the range end in zero or infinity. -/
namespace TensorEval

theorem pow_two_pos (n : Nat) : 0 < Nat.pow 2 n := Nat.two_pow_pos n

theorem pow_two_add (m n : Nat) : Nat.pow 2 (m + n) = Nat.pow 2 m * Nat.pow 2 n := Nat.pow_add 2 m n

private theorem mul_lt_mul_scaled {a b k : Nat} (hk : 0 < k) : 2 * (a * k) < b * k ↔ 2 * a < b := by
  rw [← Nat.mul_assoc]
  exact Nat.mul_lt_mul_right hk

private theorem scaled_lt_mul_mul {a b k : Nat} (hk : 0 < k) : b * k < 2 * (a * k) ↔ b < 2 * a := by
  rw [← Nat.mul_assoc]
  exact Nat.mul_lt_mul_right hk

theorem divNearestEven_mul (num den : Nat) {k : Nat} (hk : 0 < k) :
    divNearestEven (num * k) (den * k) = divNearestEven num den := by
  simp only [divNearestEven, Nat.mul_div_mul_right _ _ hk, Nat.mul_mod_mul_right, mul_lt_mul_scaled hk,
    scaled_lt_mul_mul hk]

theorem divNearestEven_mul_self (n : Nat) {k : Nat} (hk : 0 < k) : divNearestEven (n * k) k = n := by
  simp [divNearestEven, Nat.mul_div_cancel n hk, hk]

theorem div_le_divNearestEven (num den : Nat) : num / den ≤ divNearestEven num den := by
  simp only [divNearestEven]
  split
  · exact Nat.le_refl _
  · split <;> omega

theorem divNearestEven_eq_zero {num den : Nat} (h : 2 * num < den) : divNearestEven num den = 0 := by
  have hlt : num < den := by omega
  simp [divNearestEven, Nat.mod_eq_of_lt hlt, Nat.div_eq_of_lt hlt, h]

namespace FloatFormat

variable (F : FloatFormat)

private theorem roundMagnitude_mul (num den : Nat) {k : Nat} (hk : 0 < k) :
    F.roundMagnitude (num * k) (den * k) = F.roundMagnitude num den := by
  simp only [roundMagnitude, Nat.mul_div_mul_right _ _ hk]
  rw [Nat.mul_right_comm, divNearestEven_mul _ _ hk]

/-- Equal ratios round alike. -/
theorem roundMagnitude_congr {a b c d : Nat} (hb : 0 < b) (hd : 0 < d) (h : a * d = c * b) :
    F.roundMagnitude a b = F.roundMagnitude c d := by
  rw [← F.roundMagnitude_mul a b hd, ← F.roundMagnitude_mul c d hb, h, Nat.mul_comm b d]

theorem roundMagnitude_eq_zero {num den : Nat} (h : 2 * num < den) : F.roundMagnitude num den = 0 := by
  have hq : num / den = 0 := Nat.div_eq_of_lt (by omega)
  simp [roundMagnitude, hq, divNearestEven_eq_zero h]

/-- Rounding does not go below a power of two: the magnitude word that starts its exponent, or infinity. -/
private theorem le_roundMagnitude {num den e : Nat} (h : Nat.pow 2 (F.fractionBits + e) ≤ num / den) :
    min ((e + 1) * Nat.pow 2 F.fractionBits) F.infinity ≤ F.roundMagnitude num den := by
  simp only [roundMagnitude]
  have hne : num / den ≠ 0 := by
    have := pow_two_pos (F.fractionBits + e)
    omega
  have hlog : F.fractionBits + e ≤ (num / den).log2 := (Nat.le_log2 hne).mpr h
  generalize hs : (num / den).log2 - F.fractionBits = shift
  have hbits : Nat.pow 2 F.fractionBits ≤ num / (den * Nat.pow 2 shift) := by
    rw [← Nat.div_div_eq_div_mul, Nat.le_div_iff_mul_le (pow_two_pos _), ← pow_two_add]
    have hsum : F.fractionBits + shift = (num / den).log2 := by omega
    rw [hsum]
    exact Nat.log2_self_le hne
  have hround := Nat.le_trans hbits (div_le_divNearestEven num (den * Nat.pow 2 shift))
  have hexp : (e + 1) * Nat.pow 2 F.fractionBits ≤ (shift + 1) * Nat.pow 2 F.fractionBits :=
    Nat.mul_le_mul_right _ (by omega)
  rw [Nat.add_mul shift, Nat.one_mul] at hexp
  omega

/-- Ratios from the value of infinity on become infinity. -/
theorem roundMagnitude_eq_infinity {num den : Nat}
    (h : Nat.pow 2 (F.fractionBits + (Nat.pow 2 F.exponentBits - 2)) ≤ num / den) :
    F.roundMagnitude num den = F.infinity := by
  have hround := F.le_roundMagnitude h
  have hexp : Nat.pow 2 F.exponentBits - 1 ≤ Nat.pow 2 F.exponentBits - 2 + 1 := by omega
  have hinf : F.infinity ≤ (Nat.pow 2 F.exponentBits - 2 + 1) * Nat.pow 2 F.fractionBits := Nat.mul_le_mul_right _ hexp
  rw [Nat.min_eq_right hinf] at hround
  exact Nat.le_antisymm (Nat.min_le_right _ _) hround

private theorem log2_units_of_lt {fraction : Nat} (h : fraction < Nat.pow 2 F.fractionBits) :
    fraction.log2 - F.fractionBits = 0 := by
  rcases Nat.eq_zero_or_pos fraction with rfl | hpos
  · simp
  · have := (Nat.log2_lt (Nat.pos_iff_ne_zero.mp hpos)).mpr h
    omega

private theorem log2_units {fraction e : Nat} (h : fraction < Nat.pow 2 F.fractionBits) :
    ((Nat.pow 2 F.fractionBits + fraction) * Nat.pow 2 e).log2 - F.fractionBits = e := by
  have hpos : (Nat.pow 2 F.fractionBits + fraction) * Nat.pow 2 e ≠ 0 := by
    have h1 := pow_two_pos F.fractionBits
    have h2 := pow_two_pos e
    exact Nat.mul_ne_zero (by omega) (by omega)
  have hlow : F.fractionBits + e ≤ ((Nat.pow 2 F.fractionBits + fraction) * Nat.pow 2 e).log2 := by
    refine (Nat.le_log2 hpos).mpr ?_
    exact Nat.le_trans (Nat.le_of_eq (pow_two_add _ _)) (Nat.mul_le_mul_right _ (Nat.le_add_right _ _))
  have hhigh : ((Nat.pow 2 F.fractionBits + fraction) * Nat.pow 2 e).log2 < F.fractionBits + 1 + e := by
    refine (Nat.log2_lt hpos).mpr ?_
    have hdouble : Nat.pow 2 (F.fractionBits + 1) = Nat.pow 2 F.fractionBits * 2 := rfl
    refine Nat.lt_of_lt_of_eq ?_ (pow_two_add (F.fractionBits + 1) e).symm
    exact Nat.mul_lt_mul_of_pos_right (by omega) (pow_two_pos e)
  omega

/-- A number of the format rounds to itself. -/
theorem roundMagnitude_units {m k : Nat} (hm : m ≤ F.infinity) (hk : 0 < k) :
    F.roundMagnitude (F.units m * k) k = m := by
  simp only [roundMagnitude, Nat.mul_div_cancel _ hk, units]
  have hsplit := Nat.div_add_mod m (Nat.pow 2 F.fractionBits)
  have hlt := Nat.mod_lt m (pow_two_pos F.fractionBits)
  generalize m / Nat.pow 2 F.fractionBits = field at *
  generalize m % Nat.pow 2 F.fractionBits = fraction at *
  cases field with
  | zero =>
    rw [if_pos rfl, F.log2_units_of_lt hlt]
    change min (0 * _ + divNearestEven (fraction * k) (k * 1)) _ = m
    rw [Nat.mul_one, divNearestEven_mul_self _ hk]
    omega
  | succ e =>
    rw [if_neg (Nat.succ_ne_zero e), Nat.add_sub_cancel, F.log2_units hlt]
    have hassoc : (Nat.pow 2 F.fractionBits + fraction) * Nat.pow 2 e * k =
        (Nat.pow 2 F.fractionBits + fraction) * (k * Nat.pow 2 e) := by
      rw [Nat.mul_assoc, Nat.mul_comm k]
    rw [hassoc, divNearestEven_mul_self _ (Nat.mul_pos hk (pow_two_pos e))]
    have hfield : Nat.pow 2 F.fractionBits * (e + 1) = e * Nat.pow 2 F.fractionBits + Nat.pow 2 F.fractionBits := by
      rw [Nat.mul_comm, Nat.add_mul, Nat.one_mul]
    omega

theorem divNearestEven_le (num den : Nat) : divNearestEven num den ≤ num / den + 1 := by
  simp only [divNearestEven]
  split
  · omega
  · split <;> omega

/-- Ratios below half the value of infinity round to finite numbers. -/
theorem roundMagnitude_lt_infinity {num den : Nat}
    (h : num / den < Nat.pow 2 (F.fractionBits + (Nat.pow 2 F.exponentBits - 3))) :
    F.roundMagnitude num den < F.infinity := by
  simp only [roundMagnitude]
  generalize hs : (num / den).log2 - F.fractionBits = shift
  have hexp : shift + 2 < Nat.pow 2 F.exponentBits - 1 := by
    have hbits : 3 < Nat.pow 2 F.exponentBits := by cases F <;> decide
    by_cases hne : num / den = 0
    · rw [hne, Nat.log2_zero] at hs
      omega
    · have := (Nat.log2_lt hne).mpr h
      omega
  have hquotient : num / (den * Nat.pow 2 shift) < Nat.pow 2 (F.fractionBits + 1) := by
    rw [← Nat.div_div_eq_div_mul, Nat.div_lt_iff_lt_mul (pow_two_pos _), ← pow_two_add]
    exact Nat.lt_of_lt_of_le Nat.lt_log2_self (Nat.pow_le_pow_right (by decide) (by omega))
  have hround := divNearestEven_le num (den * Nat.pow 2 shift)
  have hdouble : Nat.pow 2 (F.fractionBits + 1) = Nat.pow 2 F.fractionBits * 2 := rfl
  have hsum : (shift + 2) * Nat.pow 2 F.fractionBits < F.infinity :=
    Nat.mul_lt_mul_of_pos_right hexp (pow_two_pos _)
  rw [Nat.add_mul] at hsum
  exact Nat.lt_of_le_of_lt (Nat.min_le_left _ _) (by omega)

/-- Finite numbers are below the value of infinity. -/
theorem units_lt {m : Nat} (h : m < F.infinity) :
    F.units m < 2 * Nat.pow 2 (F.fractionBits + (Nat.pow 2 F.exponentBits - 3)) := by
  have hpos := pow_two_pos F.fractionBits
  have hfraction := Nat.mod_lt m hpos
  have hfield : m / Nat.pow 2 F.fractionBits < Nat.pow 2 F.exponentBits - 1 :=
    (Nat.div_lt_iff_lt_mul hpos).mpr h
  simp only [units]
  generalize m / Nat.pow 2 F.fractionBits = field at *
  generalize m % Nat.pow 2 F.fractionBits = fraction at *
  rw [pow_two_add, ← Nat.mul_assoc]
  split
  next =>
    have hone := pow_two_pos (Nat.pow 2 F.exponentBits - 3)
    calc fraction < Nat.pow 2 F.fractionBits := hfraction
      _ ≤ 2 * Nat.pow 2 F.fractionBits := by omega
      _ ≤ 2 * Nat.pow 2 F.fractionBits * Nat.pow 2 (Nat.pow 2 F.exponentBits - 3) := Nat.le_mul_of_pos_right _ hone
  next =>
    have hpow : Nat.pow 2 (field - 1) ≤ Nat.pow 2 (Nat.pow 2 F.exponentBits - 3) :=
      Nat.pow_le_pow_right (by decide) (by omega)
    calc (Nat.pow 2 F.fractionBits + fraction) * Nat.pow 2 (field - 1)
        < 2 * Nat.pow 2 F.fractionBits * Nat.pow 2 (field - 1) :=
          Nat.mul_lt_mul_of_pos_right (by omega) (pow_two_pos _)
      _ ≤ 2 * Nat.pow 2 F.fractionBits * Nat.pow 2 (Nat.pow 2 F.exponentBits - 3) := Nat.mul_le_mul_left _ hpow

/-- The values from a magnitude word on that starts an exponent. -/
theorem le_units {m e : Nat} (h : (e + 1) * Nat.pow 2 F.fractionBits ≤ m) :
    Nat.pow 2 (F.fractionBits + e) ≤ F.units m := by
  have hfield : e + 1 ≤ m / Nat.pow 2 F.fractionBits := (Nat.le_div_iff_mul_le (pow_two_pos _)).mpr h
  simp only [units]
  rw [if_neg (by omega), pow_two_add]
  exact Nat.mul_le_mul (Nat.le_add_right _ _) (Nat.pow_le_pow_right (by decide) (by omega))

/-- A number from two on rounds to such a number. -/
theorem two_le_units_roundMagnitude {num den : Nat} (h : 2 * Nat.pow 2 F.scale ≤ num / den)
    (hfinite : F.roundMagnitude num den < F.infinity) : 2 * Nat.pow 2 F.scale ≤ F.units (F.roundMagnitude num den) := by
  obtain ⟨e, he⟩ : ∃ e, F.fractionBits + e = F.scale + 1 := by
    refine ⟨Nat.pow 2 (F.exponentBits - 1) - 1, ?_⟩
    have hbits : 2 ≤ Nat.pow 2 (F.exponentBits - 1) := by cases F <;> decide
    unfold scale
    omega
  have hpow : Nat.pow 2 (F.fractionBits + e) = 2 * Nat.pow 2 F.scale := by
    rw [he]
    exact Nat.mul_comm _ _
  rw [← hpow] at h ⊢
  have hround := F.le_roundMagnitude h
  exact F.le_units (by omega)

end FloatFormat

end TensorEval
