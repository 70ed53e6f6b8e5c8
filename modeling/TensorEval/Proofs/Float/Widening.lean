import TensorEval.Proofs.Float.Exact

/-! Numbers of a narrower format in a wider one: a double does not tell them apart. Formats hold the integers with no more
digits than a significand has, and the largest power of two beyond them. -/
namespace TensorEval.FloatWord
variable {F G : FloatFormat}

theorem fitsSignificand_of_natAbs_le {n : Int} (h : n.natAbs ≤ Nat.pow 2 (F.fractionBits + 1)) : F.FitsSignificand n := by
  rcases Nat.lt_or_eq_of_le h with hlt | heq
  · exact ⟨n.natAbs, 0, hlt, (Nat.mul_one _).symm⟩
  · exact ⟨1, F.fractionBits + 1, Nat.one_lt_two_pow (Nat.succ_ne_zero _), by rw [heq, Nat.one_mul]⟩

private theorem widen_eq_convert_of_not_isNaN {x : FloatWord F} (h : x.isNaN = false) :
    x.widen = x.convert .binary64 := by
  cases F with
  | binary16 | bfloat16 | binary32 => rfl
  | binary64 =>
    cases hfinite : x.isFinite with
    | true => exact (convert_self hfinite).symm
    | false => rw [eq_infinite hfinite h, convert_infinite, widen_infinite]

/-- A number has the same double in a wider format. -/
theorem widen_convert (h : F.Within G) {x : FloatWord F} (hx : x.isNaN = false) : (x.convert G).widen = x.widen := by
  rw [widen_eq_convert_of_not_isNaN (not_isNaN_convert G hx), widen_eq_convert_of_not_isNaN hx]
  cases hfinite : x.isFinite with
  | true => exact convert_convert h _ hfinite
  | false => rw [eq_infinite hfinite hx, convert_infinite, convert_infinite, convert_infinite]

/-- An integer that a format holds has the same double as its number in that format. -/
theorem widen_ofInt {n : Int} (h : n.natAbs ≤ Nat.pow 2 (F.fractionBits + 1)) :
    (ofInt F n).isNaN = false ∧ (ofInt F n).widen = ofInt .binary64 n := by
  have hfits := fitsSignificand_of_natAbs_le h
  have hmost : n.natAbs * Nat.pow 2 F.scale < Nat.pow 2 F.mostExponent := by
    refine Nat.lt_of_le_of_lt (Nat.mul_le_mul_right _ h) ?_
    cases F <;> decide +kernel
  have hnan := not_isNaN_of_isFinite (value_ofInt hfits hmost).1
  exact ⟨hnan, (widen_eq_convert_of_not_isNaN hnan).trans (convert_ofInt_of_fitsSignificand hfits hmost)⟩

end TensorEval.FloatWord
