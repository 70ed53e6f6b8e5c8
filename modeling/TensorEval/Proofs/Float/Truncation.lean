import TensorEval.Proofs.Float.Selection

/-! Truncation to integers: the whole part of a number, the widths that it fits, and the numbers that are truncated to
zero. -/
namespace TensorEval.FloatWord
variable {F : FloatFormat} {x : FloatWord F} {width : Nat}

def wholePart (x : FloatWord F) : Int := x.value.tdiv (Nat.pow 2 F.scale)

private theorem natAbs_wholePart (x : FloatWord F) : x.wholePart.natAbs = x.units / Nat.pow 2 F.scale := by
  rw [wholePart, Int.natAbs_tdiv, Int.natAbs_natCast, natAbs_value]
  rfl

theorem truncate_of_isNaN (h : x.isNaN = true) : x.truncate width = 0 := if_pos h

private theorem truncate_of_wholePart (hnan : x.isNaN = false) (hlow : -(Nat.pow 2 (width - 1) : Nat) ≤ x.wholePart)
    (hhigh : x.wholePart < (Nat.pow 2 (width - 1) : Nat)) : x.truncate width = x.wholePart := by
  rw [truncate, if_neg (by simp [hnan])]
  change max _ (min x.wholePart _) = _
  omega

/-- Whether a whole part is an integer of a width in two's complement, or what is truncated is a NaN, which gives zero. -/
def TruncatesWithin (width : Nat) (x : FloatWord F) : Prop :=
  x.isNaN = true ∨ -(Nat.pow 2 (width - 1) : Nat) ≤ x.wholePart ∧ x.wholePart < (Nat.pow 2 (width - 1) : Nat)

instance (width : Nat) (x : FloatWord F) : Decidable (x.TruncatesWithin width) := inferInstanceAs (Decidable (_ ∨ _ ∧ _))

theorem TruncatesWithin.truncate_eq {width' : Nat} (h : x.TruncatesWithin width) (hle : width ≤ width') :
    x.truncate width = x.truncate width' := by
  cases hnan : x.isNaN with
  | true => rw [truncate_of_isNaN hnan, truncate_of_isNaN hnan]
  | false =>
    obtain ⟨hlow, hhigh⟩ := h.resolve_left (hnan ▸ Bool.false_ne_true)
    have hpow : Nat.pow 2 (width - 1) ≤ Nat.pow 2 (width' - 1) :=
      Nat.pow_le_pow_right Nat.two_pos (Nat.sub_le_sub_right hle 1)
    rw [truncate_of_wholePart hnan hlow hhigh, truncate_of_wholePart hnan (by omega) (by omega)]

/-- A number is truncated to zero if it is less than one in size. -/
theorem truncate_eq_zero_iff (hnan : x.isNaN = false) : x.truncate 64 = 0 ↔ x.units < Nat.pow 2 F.scale := by
  have hpos : 0 < Nat.pow 2 F.scale := Nat.two_pow_pos _
  rw [← Nat.div_eq_zero_iff_lt hpos, ← natAbs_wholePart, truncate_of_not_isNaN hnan]
  change max _ (min x.wholePart _) = 0 ↔ _
  unfold signedBound
  omega

/-- Numbers from one on are truncated to zero as little as they are zero. -/
theorem truncate_eq_zero_iff_isZero (h : x.isZero = true ∨ x.isNaN = false ∧ Nat.pow 2 F.scale ≤ x.units) :
    x.truncate 64 = 0 ↔ x.isZero = true := by
  have hpos : 0 < Nat.pow 2 F.scale := Nat.two_pow_pos _
  have hnan : x.isNaN = false := h.elim isNaN_of_isZero And.left
  rw [truncate_eq_zero_iff hnan, ← units_eq_zero_iff hnan]
  rcases h with hzero | ⟨-, hunits⟩
  · rw [(units_eq_zero_iff hnan).mpr hzero]
    exact iff_of_true hpos rfl
  · omega

end TensorEval.FloatWord
