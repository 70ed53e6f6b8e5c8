import TensorEval.Json.Numeral
import TensorEval.Proofs.Float.Decimal
import TensorEval.Proofs.Float.Range
import TensorEval.Proofs.Outcome

/-! What numbers a JSON text holds: integers that fit a word, and finite doubles. -/
namespace TensorEval.Json

/-- Whether a number is one that a numeral can be read as. -/
def Number.InRange : Number → Prop
  | unsigned n => n < wordBound
  | negative n => n.natAbs ≤ signedBound
  | float x => x.isFinite = true

theorem Number.isFinite_toDouble {n : Number} (h : n.InRange) : n.toDouble.isFinite = true := by
  cases n with
  | unsigned n => exact FloatWord.isFinite_ofInt (Nat.le_of_lt h)
  | negative n => exact FloatWord.isFinite_ofInt (Nat.le_trans h (by decide))
  | float x => exact h

namespace Numeral

private theorem gather_lt {ds : List Char} : ∀ {start : Nat}, start < wordBound → (gather start ds).1 < wordBound := by
  induction ds with
  | nil => exact fun h => h
  | cons d ds ih =>
    intro start h
    rw [gather]
    split
    next hnext => exact ih hnext
    next => exact h

private theorem magnitude_power (k : Nat) :
    (power k).magnitude =
      FloatFormat.binary64.roundMagnitude (Nat.pow 10 k * Nat.pow 2 FloatFormat.binary64.scale) 1 := by
  change Decimal.magnitude ⟨1, k⟩ = _
  have hneg : (-(k : Int)).toNat = 0 := by omega
  rw [Decimal.magnitude_eq, Decimal.ratio, Int.toNat_natCast, Nat.one_mul, hneg]

private theorem isFinite_power {k : Nat} (h : k ≤ mostPower) : (power k).isFinite = true := by
  -- The greatest power lies above half the value of infinity, where the general bound ends.
  rcases Nat.eq_or_lt_of_le h with rfl | hlt
  · decide +kernel
  · rw [FloatWord.isFinite_iff, magnitude_power]
    apply FloatFormat.roundMagnitude_lt_infinity
    have hpow {m : Nat} (hm : k ≤ m) : Nat.pow 10 k ≤ Nat.pow 10 m := Nat.pow_le_pow_right (by decide) hm
    rw [Nat.div_one]
    exact Nat.lt_of_le_of_lt (Nat.mul_le_mul_right _ (hpow (Nat.le_sub_one_of_lt hlt))) (by decide +kernel)

private theorem two_le_power {k : Nat} (hpos : 0 < k) (h : k ≤ mostPower) :
    2 * Nat.pow 2 FloatFormat.binary64.scale ≤ (power k).units := by
  have hfinite := FloatWord.isFinite_iff.mp (isFinite_power h)
  have htwo : 2 ≤ Nat.pow 10 k := Nat.le_trans (by decide) (Nat.pow_le_pow_right (by decide) hpos)
  rw [FloatWord.units]
  rw [magnitude_power] at hfinite ⊢
  refine FloatFormat.binary64.two_le_units_roundMagnitude ?_ hfinite
  rw [Nat.div_one]
  exact Nat.mul_le_mul_right _ htwo

private theorem isFinite_div_power {x : Double} (hx : x.isFinite = true) {k : Nat} (hpos : 0 < k) (h : k ≤ mostPower) :
    (x.div (power k)).isFinite = true :=
  FloatWord.isFinite_div hx (isFinite_power h) (two_le_power hpos h)

/-- A scaled significand is finite: multiplication is checked, and division cannot leave the range. -/
private theorem isFinite_scaled {significand : Nat} (hword : significand < wordBound) {exponent : Int} {x : Double}
    (h : scaled significand exponent = some x) : x.isFinite = true := by
  have hstart : (FloatWord.ofInt .binary64 (significand : Int)).isFinite = true :=
    FloatWord.isFinite_ofInt (Nat.le_of_lt hword)
  unfold scaled at h
  dsimp only at h
  split at h
  next hsign =>
    split at h
    next =>
      split at h
      next =>
        obtain rfl := Option.some.inj h
        exact hstart
      next => exact nomatch h
    next hmost =>
      split at h
      next => exact nomatch h
      next hfinite =>
        obtain rfl := Option.some.inj h
        exact (FloatWord.isFinite_mul_iff hstart (isFinite_power (by omega))).mpr (Bool.eq_false_iff.mpr hfinite)
  next hsign =>
    split at h
    next hbelow =>
      obtain rfl := Option.some.inj h
      exact isFinite_div_power hstart (by omega) hbelow
    next hbelow =>
      split at h
      next htwice =>
        obtain rfl := Option.some.inj h
        have hfirst := isFinite_div_power hstart (by decide) (Nat.le_refl mostPower)
        exact isFinite_div_power hfirst (by omega) (by omega)
      next =>
        obtain rfl := Option.some.inj h
        exact FloatWord.isFinite_zero _ _

private theorem isFinite_signed {x : Double} (negative : Bool) (h : x.isFinite = true) :
    (signed negative x).isFinite = true := h

/-- A numeral has a value in range, if it has one. -/
theorem inRange_number {n : Numeral} {value : Number} (h : n.number = some value) : value.InRange := by
  have hhead : (gather 0 n.whole).1 < wordBound := gather_lt (by decide)
  unfold number at h
  generalize gather 0 n.whole = whole at h hhead
  obtain ⟨head, left⟩ := whole
  dsimp only at h hhead
  split at h
  next =>
    split at h
    next =>
      split at h
      next hbound =>
        obtain rfl := Option.some.inj h
        change (-(head : Int)).natAbs ≤ signedBound
        omega
      next =>
        obtain rfl := Option.some.inj h
        exact isFinite_signed true (FloatWord.isFinite_ofInt (Nat.le_of_lt hhead))
    next =>
      obtain rfl := Option.some.inj h
      exact hhead
  next =>
    obtain ⟨x, hx, rfl⟩ := Option.map_eq_some_iff.mp h
    exact isFinite_signed n.negative (isFinite_scaled (gather_lt hhead) hx)

/-- The number at the start of a text is in range. -/
theorem inRange_lex {cs rest : List Char} {value : Number} (h : lex cs = (.whole value, rest)) : value.InRange := by
  unfold lex at h
  split at h
  next => exact nomatch h
  next numeral _ _ =>
    split at h
    next hnumber =>
      obtain ⟨rfl, -⟩ := Leaf.whole.inj (Prod.mk.inj h).1
      exact inRange_number hnumber
    next => exact nomatch h

end Numeral

end TensorEval.Json
