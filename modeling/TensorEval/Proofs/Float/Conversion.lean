import TensorEval.Float.Rounding

/-! Values that are not finite survive the way from an element format to double precision and back: infinities as they
are, a NaN with its sign and payload once it is quiet. -/
namespace TensorEval

namespace FloatFormat

variable {F G : FloatFormat}

private theorem quietBit_pos (F : FloatFormat) : 0 < F.quietBit := Nat.two_pow_pos _

private theorem two_mul_quietBit (F : FloatFormat) : 2 * F.quietBit = Nat.pow 2 F.fractionBits := by
  cases F <;> rfl

def quieted (F : FloatFormat) (payload : Nat) : Nat :=
  if payload < F.quietBit then payload + F.quietBit else payload

private theorem quietBit_le_quieted (F : FloatFormat) (payload : Nat) : F.quietBit ≤ F.quieted payload := by
  unfold quieted
  split <;> omega

private theorem quieted_lt {payload : Nat} (h : payload < Nat.pow 2 F.fractionBits) :
    F.quieted payload < Nat.pow 2 F.fractionBits := by
  have := F.two_mul_quietBit
  unfold quieted
  split <;> omega

private theorem quieted_of_le {payload : Nat} (h : F.quietBit ≤ payload) : F.quieted payload = payload :=
  if_neg (Nat.not_lt.mpr h)

private theorem quieted_quieted (F : FloatFormat) (payload : Nat) : F.quieted (F.quieted payload) = F.quieted payload :=
  quieted_of_le (F.quietBit_le_quieted payload)

private theorem quietBit_le_carryPayload (F G : FloatFormat) (payload : Nat) : G.quietBit ≤ F.carryPayload G payload :=
  G.quietBit_le_quieted _

section Wider
variable {k : Nat} (hk : G.fractionBits = F.fractionBits + k)
include hk

private theorem two_pow_fractionBits : Nat.pow 2 G.fractionBits = Nat.pow 2 F.fractionBits * Nat.pow 2 k := by
  rw [hk]
  exact Nat.pow_add 2 _ _

private theorem quietBit_wider : G.quietBit = F.quietBit * Nat.pow 2 k := by
  have hF := F.two_mul_quietBit
  have hG := G.two_mul_quietBit
  rw [two_pow_fractionBits hk, ← hF, Nat.mul_assoc] at hG
  omega

private theorem quieted_mul (payload : Nat) : G.quieted (payload * Nat.pow 2 k) = F.quieted payload * Nat.pow 2 k := by
  have hpos : 0 < Nat.pow 2 k := Nat.two_pow_pos k
  unfold quieted
  rw [quietBit_wider hk, ← Nat.add_mul]
  simp only [Nat.mul_lt_mul_right hpos]
  split <;> rfl

private theorem carryPayload_wider {payload : Nat} (h : payload < Nat.pow 2 F.fractionBits) :
    F.carryPayload G payload = F.quieted payload * Nat.pow 2 k := by
  have hpos : 0 < Nat.pow 2 F.fractionBits := Nat.two_pow_pos _
  have hmoved : payload * Nat.pow 2 G.fractionBits / Nat.pow 2 F.fractionBits % Nat.pow 2 G.fractionBits =
      payload * Nat.pow 2 k := by
    rw [two_pow_fractionBits hk, Nat.mul_left_comm, Nat.mul_div_cancel_left _ hpos]
    exact Nat.mod_eq_of_lt (Nat.mul_lt_mul_of_pos_right h (Nat.two_pow_pos k))
  rw [← quieted_mul hk, ← hmoved]
  rfl

private theorem carryPayload_narrower {payload : Nat} (h : payload < Nat.pow 2 F.fractionBits) :
    G.carryPayload F (payload * Nat.pow 2 k) = F.quieted payload := by
  have hpos : 0 < Nat.pow 2 F.fractionBits * Nat.pow 2 k := Nat.mul_pos (Nat.two_pow_pos _) (Nat.two_pow_pos k)
  have hmoved : payload * Nat.pow 2 k * Nat.pow 2 F.fractionBits / Nat.pow 2 G.fractionBits %
      Nat.pow 2 F.fractionBits = payload := by
    rw [two_pow_fractionBits hk, Nat.mul_assoc, Nat.mul_comm (Nat.pow 2 k), Nat.mul_div_cancel _ hpos]
    exact Nat.mod_eq_of_lt h
  unfold carryPayload
  rw [hmoved]
  rfl

end Wider

end FloatFormat

namespace FloatWord

variable {F G : FloatFormat}

/-- The fraction field of a NaN. -/
def payload (x : FloatWord F) : Nat := x.magnitude - F.infinity

theorem ext_magnitude {x y : FloatWord F} (hn : x.negative = y.negative) (hm : x.magnitude = y.magnitude) : x = y := by
  obtain ⟨_, _, _⟩ := x
  obtain ⟨_, _, _⟩ := y
  subst hn hm
  rfl

theorem negative_convert (G : FloatFormat) (x : FloatWord F) : (x.convert G).negative = x.negative := by
  unfold convert
  split
  · rfl
  · split <;> rfl

private theorem magnitude_convert_of_isNaN (G : FloatFormat) {x : FloatWord F} (h : x.isNaN = true) :
    (x.convert G).magnitude = G.infinity + F.carryPayload G x.payload := by
  rw [convert, if_pos h]
  rfl

theorem payload_convert (G : FloatFormat) {x : FloatWord F} (h : x.isNaN = true) :
    (x.convert G).payload = F.carryPayload G x.payload := by
  rw [payload, magnitude_convert_of_isNaN G h, Nat.add_sub_cancel_left]

theorem isNaN_convert (G : FloatFormat) {x : FloatWord F} (h : x.isNaN = true) : (x.convert G).isNaN = true := by
  have hquiet := F.quietBit_le_carryPayload G x.payload
  have hpos := G.quietBit_pos
  simp only [isNaN, magnitude_convert_of_isNaN G h, decide_eq_true_eq]
  omega

theorem not_isNaN_round (F : FloatFormat) (negative : Bool) (num den : Nat) : (round F negative num den).isNaN = false :=
  decide_eq_false (Nat.not_lt.mpr (Nat.min_le_right _ _))

theorem not_isNaN_convert (G : FloatFormat) {x : FloatWord F} (h : x.isNaN = false) :
    (x.convert G).isNaN = false := by
  unfold convert
  rw [if_neg (by simp [h])]
  split
  · simp [isNaN, infinite]
  · exact not_isNaN_round G _ _ _

theorem convert_infinite (F G : FloatFormat) (negative : Bool) :
    (infinite F negative).convert G = infinite G negative := by
  simp [convert, infinite, isNaN, isInfinite]

private theorem payload_lt (x : FloatWord F) : x.payload < Nat.pow 2 F.fractionBits := by
  have := x.magnitude_lt
  have := F.infinity_add_two_pow
  have hpos : 0 < Nat.pow 2 F.fractionBits := Nat.two_pow_pos _
  unfold payload
  omega

private theorem eq_of_payload {x y : FloatWord F} (hx : x.isNaN = true) (hy : y.isNaN = true)
    (hn : x.negative = y.negative)
    (hp : x.payload = y.payload) : x = y := by
  apply ext_magnitude hn
  simp only [isNaN, decide_eq_true_eq] at hx hy
  simp only [payload] at hp
  omega

theorem widen_eq_convert (hF : F ≠ .binary64) (x : FloatWord F) : x.widen = x.convert .binary64 := by
  cases F with
  | binary64 => exact absurd rfl hF
  | binary16 | bfloat16 | binary32 => rfl

theorem not_isNaN_widen {x : FloatWord F} (h : x.isNaN = false) : x.widen.isNaN = false := by
  cases F with
  | binary64 => exact h
  | binary16 | bfloat16 | binary32 => exact not_isNaN_convert _ h

theorem isNaN_widen {x : FloatWord F} (h : x.isNaN = true) : x.widen.isNaN = true := by
  cases F with
  | binary64 => exact h
  | binary16 | bfloat16 | binary32 => exact isNaN_convert _ h

private theorem clearLowHalf_of_isNaN {x : Double} (h : x.isNaN = true) : x.clearLowHalf = x := if_pos h

theorem isNaN_narrow (F : FloatFormat) {x : Double} (h : x.isNaN = true) : (x.narrow F).isNaN = true := by
  cases F with
  | binary64 => exact h
  | binary32 => exact isNaN_convert _ h
  | binary16 => exact isNaN_convert _ (isNaN_convert _ h)
  | bfloat16 =>
    rw [narrow, clearLowHalf_of_isNaN h]
    exact isNaN_convert _ h

theorem negative_narrow (F : FloatFormat) {x : Double} (h : x.isNaN = true) : (x.narrow F).negative = x.negative := by
  cases F with
  | binary64 => rfl
  | binary32 => exact negative_convert _ _
  | binary16 => exact (negative_convert _ _).trans (negative_convert _ _)
  | bfloat16 =>
    rw [narrow, clearLowHalf_of_isNaN h]
    exact negative_convert _ _

private theorem payload_narrow_convert (hF : F ≠ .binary64) {y : FloatWord F} (h : y.isNaN = true) :
    ((y.convert .binary64).narrow F).payload = F.quieted y.payload := by
  have hp := y.payload_lt
  have hwide := isNaN_convert .binary64 h
  cases F with
  | binary64 => exact absurd rfl hF
  | binary32 =>
    rw [narrow, payload_convert _ hwide, payload_convert _ h,
      FloatFormat.carryPayload_wider (G := .binary64) (k := 29) rfl hp,
      FloatFormat.carryPayload_narrower rfl (FloatFormat.quieted_lt hp), FloatFormat.quieted_quieted]
  | bfloat16 =>
    rw [narrow, clearLowHalf_of_isNaN hwide, payload_convert _ hwide, payload_convert _ h,
      FloatFormat.carryPayload_wider (G := .binary64) (k := 45) rfl hp,
      FloatFormat.carryPayload_narrower rfl (FloatFormat.quieted_lt hp), FloatFormat.quieted_quieted]
  | binary16 =>
    -- The way back leads through single precision, which holds the payload as well.
    have hquiet := FloatFormat.quieted_lt hp
    have hsplit : FloatFormat.binary16.quieted y.payload * Nat.pow 2 42 =
        FloatFormat.binary16.quieted y.payload * Nat.pow 2 13 * Nat.pow 2 29 := by rw [Nat.mul_assoc]
    have hsingle : FloatFormat.binary16.quieted y.payload * Nat.pow 2 13 <
        Nat.pow 2 FloatFormat.binary32.fractionBits :=
      Nat.mul_lt_mul_of_pos_right hquiet (Nat.two_pow_pos 13)
    rw [narrow, payload_convert _ (isNaN_convert _ hwide), payload_convert _ hwide, payload_convert _ h,
      FloatFormat.carryPayload_wider (G := .binary64) (k := 42) rfl hp, hsplit,
      FloatFormat.carryPayload_narrower rfl hsingle,
      FloatFormat.quieted_mul (F := .binary16) (G := .binary32) (k := 13) rfl, FloatFormat.quieted_quieted,
      FloatFormat.carryPayload_narrower (F := .binary16) (G := .binary32) rfl hquiet, FloatFormat.quieted_quieted]

private theorem widen_narrow_of_isNaN {y : FloatWord F} (h : y.isNaN = true) :
    (y.widen.narrow F).widen = y.widen := by
  by_cases hF : F = .binary64
  · subst hF
    rfl
  · obtain ⟨k, hk⟩ : ∃ k, FloatFormat.binary64.fractionBits = F.fractionBits + k := by
      cases F
      · exact ⟨42, rfl⟩
      · exact ⟨45, rfl⟩
      · exact ⟨29, rfl⟩
      · exact ⟨0, rfl⟩
    rw [widen_eq_convert hF, widen_eq_convert hF]
    have hwide := isNaN_convert .binary64 h
    have hback := isNaN_narrow F hwide
    apply eq_of_payload (isNaN_convert _ hback) hwide
    · rw [negative_convert, negative_narrow F hwide]
    · rw [payload_convert _ hback, payload_convert _ h, payload_narrow_convert hF h,
        FloatFormat.carryPayload_wider hk (FloatFormat.quieted_lt y.payload_lt), FloatFormat.quieted_quieted,
        FloatFormat.carryPayload_wider hk y.payload_lt]

theorem widen_infinite (F : FloatFormat) (negative : Bool) : (infinite F negative).widen = infinite .binary64 negative := by
  cases F with
  | binary64 => rfl
  | binary16 | bfloat16 | binary32 => exact convert_infinite _ _ _

private theorem clearLowHalf_infinite (negative : Bool) :
    (infinite .binary64 negative).clearLowHalf = infinite .binary64 negative := by
  cases negative <;> rfl

theorem narrow_infinite (F : FloatFormat) (negative : Bool) : (infinite .binary64 negative).narrow F = infinite F negative := by
  cases F with
  | binary64 => rfl
  | binary32 => exact convert_infinite _ _ _
  | binary16 => rw [narrow, convert_infinite, convert_infinite]
  | bfloat16 => rw [narrow, clearLowHalf_infinite, convert_infinite]

theorem eq_infinite {x : FloatWord F} (hfinite : x.isFinite = false) (hnan : x.isNaN = false) :
    x = infinite F x.negative := by
  simp only [isFinite, isNaN, decide_eq_false_iff_not] at hfinite hnan
  exact ext_magnitude rfl (Nat.le_antisymm (Nat.not_lt.mp hnan) (Nat.not_lt.mp hfinite))

theorem widen_narrow_of_infinite (F : FloatFormat) {x : Double} (hfinite : x.isFinite = false)
    (hnan : x.isNaN = false) : (x.narrow F).widen = x := by
  rw [eq_infinite hfinite hnan, narrow_infinite, widen_infinite]

/-- A double that comes from an element format and is not finite is kept by that format. -/
theorem widen_narrow_widen (y : FloatWord F) (h : y.widen.isFinite = false) : (y.widen.narrow F).widen = y.widen := by
  cases hnan : y.isNaN with
  | true => exact widen_narrow_of_isNaN hnan
  | false => exact widen_narrow_of_infinite F h (not_isNaN_widen hnan)

end FloatWord

end TensorEval
