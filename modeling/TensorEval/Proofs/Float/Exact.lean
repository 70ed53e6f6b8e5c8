import TensorEval.Proofs.Float.Conversion
import TensorEval.Proofs.Float.Range
import TensorEval.Word

/-! Numbers that a format holds exactly: significands of its width times powers of two, as long as they are finite. So a
wider format holds every number of a narrower one, and a double holds the integers that have few enough digits. -/
namespace TensorEval

namespace FloatFormat
variable {F G : FloatFormat}

/-- The exponent of the value of infinity. -/
def mostExponent (F : FloatFormat) : Nat := F.fractionBits + (Nat.pow 2 F.exponentBits - 2)

private theorem exists_significand (F : FloatFormat) (m : Nat) :
    ∃ u e, F.units m = u * Nat.pow 2 e ∧ u < Nat.pow 2 (F.fractionBits + 1) := by
  have hfraction := Nat.mod_lt m (pow_two_pos F.fractionBits)
  have hdouble : Nat.pow 2 (F.fractionBits + 1) = Nat.pow 2 F.fractionBits * 2 := rfl
  unfold units
  dsimp only
  split
  · exact ⟨_, 0, (Nat.mul_one _).symm, by omega⟩
  · exact ⟨_, _, rfl, by omega⟩

theorem units_lt_two_pow {m : Nat} (h : m < F.infinity) : F.units m < Nat.pow 2 F.mostExponent := by
  have hlt := F.units_lt h
  have hbits : 3 ≤ Nat.pow 2 F.exponentBits := by cases F <;> decide
  have hexponent : F.mostExponent = 1 + (F.fractionBits + (Nat.pow 2 F.exponentBits - 3)) := by
    unfold mostExponent
    omega
  rw [hexponent, pow_two_add 1]
  exact hlt

/-- A number below the first normal one is its own magnitude word. -/
theorem units_of_lt {v : Nat} (h : v < Nat.pow 2 F.fractionBits) : F.units v = v := by
  rw [units, Nat.div_eq_of_lt h, Nat.mod_eq_of_lt h]
  rfl

/-- The word of a normal number with significand `w`. -/
theorem units_of_significand {s w : Nat} (hlow : Nat.pow 2 F.fractionBits ≤ w)
    (hhigh : w < Nat.pow 2 (F.fractionBits + 1)) :
    F.units (s * Nat.pow 2 F.fractionBits + w) = w * Nat.pow 2 s := by
  have hdouble : Nat.pow 2 (F.fractionBits + 1) = Nat.pow 2 F.fractionBits * 2 := rfl
  obtain ⟨fraction, rfl⟩ := Nat.exists_eq_add_of_le hlow
  have hword : s * Nat.pow 2 F.fractionBits + (Nat.pow 2 F.fractionBits + fraction) =
      fraction + Nat.pow 2 F.fractionBits * (s + 1) := by
    rw [Nat.mul_add, Nat.mul_one, Nat.mul_comm]
    omega
  rw [hword, units, Nat.add_mul_div_left _ _ (pow_two_pos _), Nat.add_mul_mod_self_left,
    Nat.div_eq_of_lt (by omega), Nat.mod_eq_of_lt (by omega), Nat.zero_add, Nat.add_sub_cancel]
  rfl

/-- A format holds the normal numbers with a significand that leaves the last `j` bits of the fraction unused, and these
bits of the word are zero. -/
private theorem exists_units_of_normal {u e j : Nat} (hj : j ≤ F.fractionBits)
    (hu : u < Nat.pow 2 (F.fractionBits + 1 - j))
    (hnormal : Nat.pow 2 F.fractionBits ≤ u * Nat.pow 2 e) (hmost : u * Nat.pow 2 e < Nat.pow 2 F.mostExponent) :
    ∃ m, m < F.infinity ∧ F.units m = u * Nat.pow 2 e ∧ Nat.pow 2 j ∣ m := by
  have hpos := pow_two_pos F.fractionBits
  have hne : u * Nat.pow 2 e ≠ 0 := by omega
  -- The exponent takes up the digits that the significand is short of.
  obtain ⟨s, hs⟩ : ∃ s, (u * Nat.pow 2 e).log2 = F.fractionBits + s :=
    Nat.exists_eq_add_of_le ((Nat.le_log2 hne).mpr hnormal)
  have hshift : s + j ≤ e := by
    have hlt : u * Nat.pow 2 e < Nat.pow 2 (F.fractionBits + 1 - j + e) := by
      rw [pow_two_add]
      exact Nat.mul_lt_mul_of_pos_right hu (pow_two_pos e)
    have := (Nat.log2_lt hne).mpr hlt
    omega
  have hexponent : s + 2 < Nat.pow 2 F.exponentBits := by
    have := (Nat.log2_lt hne).mpr hmost
    unfold mostExponent at this
    omega
  obtain ⟨d, rfl⟩ := Nat.exists_eq_add_of_le hshift
  have hvalue : u * Nat.pow 2 (s + j + d) = u * Nat.pow 2 d * Nat.pow 2 j * Nat.pow 2 s := by
    rw [Nat.add_assoc, Nat.add_comm s, Nat.add_comm j, pow_two_add, pow_two_add, ← Nat.mul_assoc, ← Nat.mul_assoc]
  have hlow : Nat.pow 2 F.fractionBits ≤ u * Nat.pow 2 d * Nat.pow 2 j := by
    have hself := Nat.log2_self_le hne
    rw [hs, hvalue] at hself
    exact Nat.le_of_mul_le_mul_right (Nat.le_trans (Nat.le_of_eq (pow_two_add _ _).symm) hself) (pow_two_pos s)
  have hhigh : u * Nat.pow 2 d * Nat.pow 2 j < Nat.pow 2 (F.fractionBits + 1) := by
    have hself : u * Nat.pow 2 (s + j + d) < Nat.pow 2 (F.fractionBits + s + 1) := hs ▸ Nat.lt_log2_self
    rw [hvalue, Nat.add_right_comm, pow_two_add (F.fractionBits + 1)] at hself
    exact Nat.lt_of_mul_lt_mul_right hself
  refine ⟨s * Nat.pow 2 F.fractionBits + u * Nat.pow 2 d * Nat.pow 2 j, ?_, ?_, ?_⟩
  · have hdouble : Nat.pow 2 (F.fractionBits + 1) = Nat.pow 2 F.fractionBits * 2 := rfl
    have hmul : (s + 2) * Nat.pow 2 F.fractionBits ≤ F.infinity := Nat.mul_le_mul_right _ (by omega)
    rw [Nat.add_mul] at hmul
    omega
  · rw [units_of_significand hlow hhigh, hvalue]
  · exact Nat.dvd_add (Nat.dvd_mul_left_of_dvd (Nat.pow_dvd_pow 2 hj) s) (Nat.dvd_mul_left _ _)

/-- A format holds all finite numbers with significands of its width. -/
theorem exists_units {u e : Nat} (hu : u < Nat.pow 2 (F.fractionBits + 1))
    (hmost : u * Nat.pow 2 e < Nat.pow 2 F.mostExponent) : ∃ m, m < F.infinity ∧ F.units m = u * Nat.pow 2 e := by
  rcases Nat.lt_or_ge (u * Nat.pow 2 e) (Nat.pow 2 F.fractionBits) with hlt | hge
  · have hbits : 2 ≤ Nat.pow 2 F.exponentBits := by cases F <;> decide
    have hle : 1 * Nat.pow 2 F.fractionBits ≤ F.infinity := Nat.mul_le_mul_right _ (by omega)
    exact ⟨_, by omega, units_of_lt hlt⟩
  · obtain ⟨m, hm, hunits, -⟩ := exists_units_of_normal (Nat.zero_le _) hu hge hmost
    exact ⟨m, hm, hunits⟩

/-- Whether the exponent and the fraction of a format have room in those of another one. -/
def Within (F G : FloatFormat) : Prop := F.fractionBits ≤ G.fractionBits ∧ F.exponentBits ≤ G.exponentBits

instance (F G : FloatFormat) : Decidable (F.Within G) := inferInstanceAs (Decidable (_ ∧ _))

private theorem Within.scale_add (h : F.Within G) :
    F.scale + (G.scale - F.scale) = G.scale ∧ F.mostExponent + (G.scale - F.scale) ≤ G.mostExponent := by
  revert h
  cases F <;> cases G <;> decide

/-- Numbers of a format have different values. -/
theorem eq_of_units_eq {m m' : Nat} (hm : m ≤ F.infinity) (hm' : m' ≤ F.infinity) (h : F.units m = F.units m') :
    m = m' := by
  rw [← F.roundMagnitude_units hm Nat.one_pos, h, F.roundMagnitude_units hm' Nat.one_pos]

/-- Whether the significand has room for the binary digits of an integer, up to the zeros at their end. -/
def FitsSignificand (F : FloatFormat) (n : Int) : Prop :=
  ∃ m k, m < Nat.pow 2 (F.fractionBits + 1) ∧ n.natAbs = m * Nat.pow 2 k

end FloatFormat

namespace FloatWord
variable {F G : FloatFormat}

theorem convert_of_isFinite (G : FloatFormat) {x : FloatWord F} (h : x.isFinite = true) :
    x.convert G = round G x.negative (x.units * Nat.pow 2 G.scale) (Nat.pow 2 F.scale) := by
  rw [convert, if_neg (by simp [not_isNaN_of_isFinite h]), if_neg (by simp [not_isInfinite_of_isFinite h])]

/-- A finite number in its own format. -/
theorem convert_self {x : FloatWord F} (h : x.isFinite = true) : x.convert F = x := by
  rw [convert_of_isFinite F h]
  exact ext_magnitude rfl (F.roundMagnitude_units (Nat.le_of_lt (isFinite_iff.mp h)) (pow_two_pos _))

/-- A wider format holds the numbers of a narrower one. -/
theorem units_convert (h : F.Within G) {x : FloatWord F} (hx : x.isFinite = true) :
    (x.convert G).isFinite = true ∧ (x.convert G).units = x.units * Nat.pow 2 (G.scale - F.scale) := by
  obtain ⟨hscale, hmost⟩ := h.scale_add
  obtain ⟨u, e, hunits, hu⟩ := F.exists_significand x.magnitude
  generalize G.scale - F.scale = k at hscale hmost ⊢
  have hvalue : x.units * Nat.pow 2 k = u * Nat.pow 2 (e + k) := by
    rw [units, hunits, Nat.mul_assoc]
    exact congrArg (u * ·) (pow_two_add e k).symm
  have hlt : x.units * Nat.pow 2 k < Nat.pow 2 G.mostExponent :=
    calc x.units * Nat.pow 2 k < Nat.pow 2 F.mostExponent * Nat.pow 2 k :=
          Nat.mul_lt_mul_of_pos_right (F.units_lt_two_pow (isFinite_iff.mp hx)) (pow_two_pos k)
      _ = Nat.pow 2 (F.mostExponent + k) := (pow_two_add _ _).symm
      _ ≤ Nat.pow 2 G.mostExponent := Nat.pow_le_pow_right (by decide) hmost
  have hwidth : u < Nat.pow 2 (G.fractionBits + 1) :=
    Nat.lt_of_lt_of_le hu (Nat.pow_le_pow_right (by decide) (Nat.succ_le_succ h.1))
  obtain ⟨m, hm, hword⟩ := G.exists_units hwidth (hvalue ▸ hlt)
  have hsplit : x.units * Nat.pow 2 G.scale = G.units m * Nat.pow 2 F.scale := by
    have hpow : Nat.pow 2 G.scale = Nat.pow 2 k * Nat.pow 2 F.scale := by
      rw [← hscale, Nat.add_comm, pow_two_add]
    rw [hpow, ← Nat.mul_assoc, hvalue, hword]
  have hmagnitude : (x.convert G).magnitude = m := by
    rw [convert_of_isFinite G hx, hsplit]
    exact G.roundMagnitude_units (Nat.le_of_lt hm) (pow_two_pos _)
  exact ⟨isFinite_iff.mpr (hmagnitude ▸ hm), by rw [units, hmagnitude, hword, hvalue]⟩

/-- The way through a wider format changes nothing. -/
theorem convert_convert (h : F.Within G) (H : FloatFormat) {x : FloatWord F} (hx : x.isFinite = true) :
    (x.convert G).convert H = x.convert H := by
  obtain ⟨hfinite, hunits⟩ := units_convert h hx
  have hpow : Nat.pow 2 (G.scale - F.scale) * Nat.pow 2 F.scale = Nat.pow 2 G.scale := by
    rw [Nat.mul_comm, ← pow_two_add, h.scale_add.1]
  rw [convert_of_isFinite H hfinite, convert_of_isFinite H hx, negative_convert, hunits]
  refine ext_magnitude rfl (H.roundMagnitude_congr (pow_two_pos _) (pow_two_pos _) ?_)
  rw [← hpow, Nat.mul_right_comm x.units (Nat.pow 2 (G.scale - F.scale)), Nat.mul_assoc (x.units * Nat.pow 2 H.scale)]

private theorem clearLowHalf_of_dvd {x : Double} (h : Nat.pow 2 32 ∣ x.magnitude) : x.clearLowHalf = x := by
  unfold clearLowHalf
  split
  · rfl
  · exact ext_magnitude rfl (Nat.div_mul_cancel h)

/-- The doubles of `bfloat16` numbers use the upper half of their bits only. -/
private theorem dvd_magnitude_convert {x : FloatWord .bfloat16} (hx : x.isFinite = true) :
    Nat.pow 2 32 ∣ (x.convert .binary64).magnitude := by
  obtain ⟨hfinite, hunits⟩ := units_convert (G := .binary64) (by decide) hx
  obtain ⟨u, e, hvalue, hu⟩ := FloatFormat.bfloat16.exists_significand x.magnitude
  rw [isFinite_iff] at hfinite
  have hle := Nat.le_of_lt hfinite
  have hbits : 52 ≤ FloatFormat.binary64.scale - FloatFormat.bfloat16.scale := by decide
  generalize FloatFormat.binary64.scale - FloatFormat.bfloat16.scale = k at hunits hbits
  have hdouble : FloatFormat.binary64.units (x.convert .binary64).magnitude = u * Nat.pow 2 (e + k) := by
    refine hunits.trans ?_
    rw [units, hvalue, Nat.mul_assoc]
    exact congrArg (u * ·) (pow_two_add e k).symm
  rcases Nat.eq_zero_or_pos u with rfl | hpos
  · rw [FloatFormat.eq_of_units_eq hle (Nat.zero_le _) (hdouble.trans (Nat.zero_mul _))]
    exact Nat.dvd_zero _
  · have hnormal : Nat.pow 2 52 ≤ u * Nat.pow 2 (e + k) :=
      Nat.le_trans (Nat.pow_le_pow_right (by decide) (by omega)) (Nat.le_mul_of_pos_left _ hpos)
    have hwidth : u < Nat.pow 2 (52 + 1 - 32) := Nat.lt_trans hu (by decide)
    have hmost := FloatFormat.units_lt_two_pow hfinite
    rw [hdouble] at hmost
    obtain ⟨m, hm, hword, hdvd⟩ :=
      FloatFormat.exists_units_of_normal (F := .binary64) (j := 32) (by decide) hwidth hnormal hmost
    rwa [FloatFormat.eq_of_units_eq hle (Nat.le_of_lt hm) (hdouble.trans hword.symm)]

/-- A finite number is the same after its double has been narrowed. -/
theorem narrow_widen {x : FloatWord F} (h : x.isFinite = true) : x.widen.narrow F = x := by
  cases F with
  | binary64 => rfl
  | binary32 => exact (convert_convert (by decide) _ h).trans (convert_self h)
  | binary16 =>
    rw [narrow, widen, convert_convert (by decide) _ h, convert_convert (by decide) _ h, convert_self h]
  | bfloat16 =>
    rw [narrow, widen, clearLowHalf_of_dvd (dvd_magnitude_convert h), convert_convert (by decide) _ h, convert_self h]

/-- So is every other number. -/
theorem narrow_widen_of_not_isNaN {x : FloatWord F} (h : x.isNaN = false) : x.widen.narrow F = x := by
  cases hfinite : x.isFinite with
  | true => exact narrow_widen hfinite
  | false => rw [eq_infinite hfinite h, widen_infinite, narrow_infinite]

theorem isFinite_of_widen {x : FloatWord F} (h : x.widen.isFinite = true) : x.isFinite = true := by
  cases hfinite : x.isFinite with
  | true => rfl
  | false =>
    cases hnan : x.isNaN with
    | false =>
      have hinfinite := not_isInfinite_of_isFinite h
      rw [eq_infinite hfinite hnan, widen_infinite] at hinfinite
      exact absurd hinfinite (by simp [isInfinite, infinite])
    | true => exact absurd ((not_isNaN_of_isFinite h).symm.trans (isNaN_widen hnan)) Bool.false_ne_true

theorem natAbs_value (x : FloatWord F) : x.value.natAbs = x.units := by
  unfold value
  split <;> simp

private theorem fitsSignificand_tdiv (x : FloatWord F) : F.FitsSignificand (x.value.tdiv (Nat.pow 2 F.scale)) := by
  obtain ⟨u, e, hunits, hu⟩ := F.exists_significand x.magnitude
  have habs : (x.value.tdiv (Nat.pow 2 F.scale)).natAbs = u * Nat.pow 2 e / Nat.pow 2 F.scale := by
    rw [Int.natAbs_tdiv, Int.natAbs_natCast, natAbs_value, units, hunits]
    rfl
  rcases Nat.le_total F.scale e with hle | hle
  · obtain ⟨k, rfl⟩ := Nat.exists_eq_add_of_le hle
    rw [pow_two_add, Nat.mul_left_comm, Nat.mul_div_cancel_left _ (pow_two_pos _)] at habs
    exact ⟨u, k, hu, habs⟩
  · -- Then the whole part has no more digits than the significand.
    refine ⟨_, 0, ?_, (Nat.mul_one _).symm⟩
    obtain ⟨k, hk⟩ := Nat.exists_eq_add_of_le hle
    have hdiv : u * Nat.pow 2 e / Nat.pow 2 F.scale = u / Nat.pow 2 k := by
      rw [hk, pow_two_add, Nat.mul_comm u, Nat.mul_div_mul_left _ _ (pow_two_pos e)]
    rw [habs, hdiv]
    exact Nat.lt_of_le_of_lt (Nat.div_le_self u _) hu

/-- An integer that fits the significand is kept, if it is in range. -/
theorem value_ofInt {n : Int} (h : F.FitsSignificand n)
    (hmost : n.natAbs * Nat.pow 2 F.scale < Nat.pow 2 F.mostExponent) :
    (ofInt F n).isFinite = true ∧ (ofInt F n).value = n * Nat.pow 2 F.scale := by
  obtain ⟨m, k, hm, hn⟩ := h
  have hvalue : n.natAbs * Nat.pow 2 F.scale = m * Nat.pow 2 (k + F.scale) := by
    rw [hn, Nat.mul_assoc]
    exact congrArg (m * ·) (pow_two_add k F.scale).symm
  obtain ⟨word, hword, hunits⟩ := F.exists_units hm (hvalue ▸ hmost)
  have hmagnitude : (ofInt F n).magnitude = word := by
    have hround := F.roundMagnitude_units (Nat.le_of_lt hword) Nat.one_pos
    rwa [Nat.mul_one, hunits, ← hvalue] at hround
  refine ⟨isFinite_iff.mpr (hmagnitude ▸ hword), ?_⟩
  have hsize : (ofInt F n).units = n.natAbs * Nat.pow 2 F.scale := by rw [units, hmagnitude, hunits, hvalue]
  have hsign : (ofInt F n).negative = decide (n < 0) := rfl
  rw [value, hsign, hsize, Int.natCast_mul]
  rcases Int.lt_or_le n 0 with hlt | hle
  · rw [if_pos (decide_eq_true hlt), ← Int.neg_mul]
    exact congrArg (· * _) (by omega)
  · rw [if_neg (by simpa using hle)]
    exact congrArg (· * _) (by omega)

/-- A number whose value is whole is rounded as an integer is. -/
theorem convert_of_units {x : FloatWord G} {m : Nat} (hfinite : x.isFinite = true)
    (hunits : x.units = m * Nat.pow 2 G.scale) : x.convert F = round F x.negative (m * Nat.pow 2 F.scale) 1 := by
  rw [convert_of_isFinite F hfinite, hunits, Nat.mul_right_comm]
  refine ext_magnitude rfl (F.roundMagnitude_congr (pow_two_pos _) Nat.one_pos ?_)
  rw [Nat.mul_one]

/-- An integer that a format holds is the same number of another format directly and from there. -/
theorem convert_ofInt_of_fitsSignificand {n : Int} (h : G.FitsSignificand n)
    (hmost : n.natAbs * Nat.pow 2 G.scale < Nat.pow 2 G.mostExponent) : (ofInt G n).convert F = ofInt F n := by
  obtain ⟨hfinite, hvalue⟩ := value_ofInt h hmost
  refine convert_of_units hfinite ?_
  rw [← natAbs_value, hvalue, Int.natAbs_mul, Int.natAbs_natCast]

theorem truncate_bounds (x : FloatWord F) : -(signedBound : Int) ≤ x.truncate 64 ∧ x.truncate 64 < signedBound := by
  have hbound : Nat.pow 2 (64 - 1) = signedBound := rfl
  unfold truncate
  split
  · decide
  · dsimp only
    rw [hbound, signedBound]
    omega

/-- A number that is no NaN is truncated to its whole part, clamped to the words with a sign. -/
theorem truncate_of_not_isNaN {x : FloatWord F} (h : x.isNaN = false) :
    x.truncate 64 = max (-(signedBound : Int)) (min (x.value.tdiv (Nat.pow 2 F.scale)) (signedBound - 1)) := by
  have hbound : ((Nat.pow 2 (64 - 1) : Nat) : Int) = signedBound := rfl
  rw [truncate, if_neg (by simp [h]), hbound]

/-- Whether a double keeps a word with a sign. The largest word is not held, but it becomes the number above it, and that
is clamped. -/
def KeepsWord (n : Int) : Prop := n = signedBound - 1 ∨ FloatFormat.binary64.FitsSignificand n

/-- The words that come back from doubles are those that doubles keep. -/
theorem truncate_ofInt_eq_iff {n : Int} (hlow : -(signedBound : Int) ≤ n) (hhigh : n < signedBound) :
    (ofInt .binary64 n).truncate 64 = n ↔ KeepsWord n := by
  have habs : n.natAbs ≤ signedBound := by omega
  have hfinite : (ofInt .binary64 n).isFinite = true := isFinite_ofInt (Nat.le_trans habs (by decide))
  rw [truncate_of_not_isNaN (not_isNaN_of_isFinite hfinite)]
  constructor
  · intro h
    by_cases hmost : n = signedBound - 1
    · exact Or.inl hmost
    right
    by_cases hleast : n = -signedBound
    · exact ⟨1, 63, by decide, by rw [hleast]; decide⟩
    have hwhole : (ofInt .binary64 n).value.tdiv (Nat.pow 2 FloatFormat.binary64.scale) = n := by omega
    rw [← hwhole]
    exact fitsSignificand_tdiv _
  · rintro (rfl | hfits)
    · decide +kernel
    · have hrange : n.natAbs * Nat.pow 2 FloatFormat.binary64.scale < Nat.pow 2 FloatFormat.binary64.mostExponent := by
        exact Nat.lt_of_le_of_lt (Nat.mul_le_mul_right _ habs) (by decide +kernel)
      have hpos : 0 < Nat.pow 2 FloatFormat.binary64.scale := pow_two_pos _
      rw [(value_ofInt hfits hrange).2, Int.mul_tdiv_cancel _ (by omega)]
      omega

/-- No integer but zero is rounded to a number that is truncated to zero. -/
theorem truncate_ofInt_eq_zero_iff {n : Int} (h : n.natAbs ≤ Nat.pow 2 64) :
    (ofInt .binary64 n).truncate 64 = 0 ↔ n = 0 := by
  by_cases hsmall : n.natAbs ≤ 1
  · have hkeeps : KeepsWord n := Or.inr ⟨n.natAbs, 0, Nat.lt_of_le_of_lt hsmall (by decide), (Nat.mul_one _).symm⟩
    rw [(truncate_ofInt_eq_iff (by unfold signedBound; omega) (by unfold signedBound; omega)).mpr hkeeps]
  · have hfinite := isFinite_ofInt h
    have hunits : 2 * Nat.pow 2 FloatFormat.binary64.scale ≤ (ofInt .binary64 n).units := by
      refine FloatFormat.two_le_units_roundMagnitude _ ?_ (isFinite_iff.mp hfinite)
      rw [Nat.div_one]
      exact Nat.mul_le_mul_right _ (Nat.lt_of_not_le hsmall)
    have hwhole : 2 ≤ ((ofInt .binary64 n).value.tdiv (Nat.pow 2 FloatFormat.binary64.scale)).natAbs := by
      rw [Int.natAbs_tdiv, Int.natAbs_natCast, natAbs_value]
      exact (Nat.le_div_iff_mul_le (pow_two_pos _)).mpr hunits
    refine iff_of_false ?_ (by omega)
    rw [truncate_of_not_isNaN (not_isNaN_of_isFinite hfinite)]
    unfold signedBound
    omega

end FloatWord

end TensorEval
