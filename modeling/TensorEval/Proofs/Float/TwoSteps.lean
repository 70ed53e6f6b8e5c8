import Mathlib.Order.Basic
import Mathlib.Tactic.Ring
import TensorEval.Proofs.Float.Exact

/-! Rounding in two steps: to multiples of a unit first, and then to multiples of a coarser one. So is an integer rounded on
the way through a double to single precision, and the result is not always the number next to the integer. -/
namespace TensorEval

section Nearest
variable {num den q : Nat} (hden : 0 < den)
include hden

/-- A ratio is rounded beyond `q` if it is beyond the middle between `q` and its successor, or if it is there and `q` is
odd. -/
private theorem lt_divNearestEven_iff :
    q < divNearestEven num den ↔ 2 * (q * den) + den < 2 * num ∨ 2 * (q * den) + den = 2 * num ∧ q % 2 = 1 := by
  have hsplit := Nat.div_add_mod' num den
  have hrest := Nat.mod_lt num hden
  simp only [divNearestEven]
  generalize num / den = whole at *
  generalize num % den = rest at *
  rcases Nat.lt_trichotomy q whole with hlt | rfl | hgt
  · have hstep : (q + 1) * den ≤ whole * den := Nat.mul_le_mul_right den hlt
    rw [Nat.add_mul, Nat.one_mul] at hstep
    refine iff_of_true ?_ (Or.inl (by omega))
    split
    · exact hlt
    · split <;> omega
  · split
    · omega
    · split <;> omega
  · have hstep : (whole + 1) * den ≤ q * den := Nat.mul_le_mul_right den hgt
    rw [Nat.add_mul, Nat.one_mul] at hstep
    refine iff_of_false ?_ (by omega)
    split
    · omega
    · split <;> omega

private theorem lt_divNearestEven_iff_of_even (hq : q % 2 = 0) :
    q < divNearestEven num den ↔ 2 * (q * den) + den < 2 * num := by
  rw [lt_divNearestEven_iff hden]
  omega

private theorem le_divNearestEven_iff_of_even (hq : q % 2 = 0) :
    q ≤ divNearestEven num den ↔ 2 * (q * den) ≤ 2 * num + den := by
  cases q with
  | zero => simp
  | succ q =>
    rw [Nat.succ_le_iff, lt_divNearestEven_iff hden, Nat.add_mul, Nat.one_mul]
    omega

end Nearest

/-- Whether `n` is beside the middle of two neighbouring multiples of `2 * half * unit`, no farther from it than half a
unit, and on the side of the odd multiple. -/
def BesideMiddle (half unit n : Nat) : Prop :=
  ∃ q d, 0 < d ∧ 2 * d ≤ unit ∧
    (q % 2 = 0 ∧ n = (2 * q + 1) * (half * unit) + d ∨ q % 2 = 1 ∧ n + d = (2 * q + 1) * (half * unit))

section TwoSteps
variable {half unit n : Nat} (hunit : 0 < unit)
include hunit

private theorem lt_divNearestEven_once_iff (hhalf : 0 < half) (q : Nat) : q < divNearestEven n (2 * half * unit) ↔
    if q % 2 = 0 then (2 * q + 1) * (half * unit) < n else (2 * q + 1) * (half * unit) ≤ n := by
  have hmiddle : 2 * (q * (2 * half * unit)) + 2 * half * unit = 2 * ((2 * q + 1) * (half * unit)) := by ring
  rw [lt_divNearestEven_iff (Nat.mul_pos (Nat.mul_pos Nat.two_pos hhalf) hunit), hmiddle]
  split <;> omega

private theorem lt_divNearestEven_twice_iff (hhalf : 0 < half) (heven : half % 2 = 0) (q : Nat) :
    q < divNearestEven (divNearestEven n unit) (2 * half) ↔
      if q % 2 = 0 then 2 * ((2 * q + 1) * (half * unit)) + unit < 2 * n
      else 2 * ((2 * q + 1) * (half * unit)) ≤ 2 * n + unit := by
  have hmiddle : 2 * (q * (2 * half)) + 2 * half = 2 * ((2 * q + 1) * half) := by ring
  have hmiddle_even : (2 * q + 1) * half % 2 = 0 := by rw [Nat.mul_mod, heven, Nat.mul_zero]
  rw [lt_divNearestEven_iff (Nat.mul_pos Nat.two_pos hhalf), hmiddle, ← Nat.mul_assoc (2 * q + 1)]
  have hlt : _ < divNearestEven n unit ↔ _ := lt_divNearestEven_iff_of_even hunit hmiddle_even
  have hle : _ ≤ divNearestEven n unit ↔ _ := le_divNearestEven_iff_of_even hunit hmiddle_even
  generalize (2 * q + 1) * half = middle at *
  split <;> omega

/-- The first step takes what is beside the middle to the middle, and the second step from there to the even multiple. -/
theorem divNearestEven_divNearestEven_eq_iff (hhalf : 0 < half) (heven : half % 2 = 0) :
    divNearestEven (divNearestEven n unit) (2 * half) = divNearestEven n (2 * half * unit) ↔
      ¬BesideMiddle half unit n := by
  have hthresholds : divNearestEven (divNearestEven n unit) (2 * half) = divNearestEven n (2 * half * unit) ↔
      ∀ q, q < divNearestEven (divNearestEven n unit) (2 * half) ↔ q < divNearestEven n (2 * half * unit) :=
    ⟨fun h q => h ▸ Iff.rfl, eq_of_forall_lt_iff⟩
  -- At an even `q` two steps pass later than one, at an odd one earlier, each by at most half a unit.
  rw [hthresholds]
  simp only [lt_divNearestEven_once_iff hunit hhalf, lt_divNearestEven_twice_iff hunit hhalf heven]
  constructor
  · rintro h ⟨q, d, hd, hle, ⟨hq, hn⟩ | ⟨hq, hn⟩⟩
    · have := h q
      rw [if_pos hq, if_pos hq] at this
      omega
    · have := h q
      rw [if_neg (by omega), if_neg (by omega)] at this
      omega
  · intro h q
    generalize hmiddle : (2 * q + 1) * (half * unit) = middle
    have hbeside (d : Nat) (hd : 0 < d) (hle : 2 * d ≤ unit) :
        ¬(q % 2 = 0 ∧ n = middle + d ∨ q % 2 = 1 ∧ n + d = middle) := fun hn => h ⟨q, d, hd, hle, hmiddle ▸ hn⟩
    have habove := hbeside (n - middle)
    have hbelow := hbeside (middle - n)
    split <;> omega

end TwoSteps

namespace FloatFormat
variable {F : FloatFormat} {n s j : Nat}

section Integers
variable (hlow : Nat.pow 2 (F.fractionBits + j) ≤ n) (hhigh : n ≤ Nat.pow 2 (F.fractionBits + j + 1))
include hlow hhigh

/-- The word of an integer: the exponent by its digits, and the digits that the significand has room for, rounded. A carry
out of them is the next exponent. -/
private theorem roundMagnitude_integer
    (hrange : n * Nat.pow 2 s < Nat.pow 2 (F.fractionBits + (Nat.pow 2 F.exponentBits - 3))) :
    F.roundMagnitude (n * Nat.pow 2 s) 1 = (j + s) * Nat.pow 2 F.fractionBits + divNearestEven n (Nat.pow 2 j) := by
  have hfinite : F.roundMagnitude (n * Nat.pow 2 s) 1 < F.infinity :=
    F.roundMagnitude_lt_infinity (by rwa [Nat.div_one])
  simp only [roundMagnitude, Nat.div_one, Nat.one_mul] at hfinite ⊢
  have hne : n * Nat.pow 2 s ≠ 0 :=
    Nat.mul_ne_zero (Nat.ne_of_gt (Nat.lt_of_lt_of_le (pow_two_pos _) hlow)) (Nat.ne_of_gt (pow_two_pos s))
  -- The upper bound has one digit more, and the same word by either exponent.
  rcases Nat.lt_or_eq_of_le hhigh with hlt | heq
  · have hlog : (n * Nat.pow 2 s).log2 = F.fractionBits + j + s := by
      refine (Nat.log2_eq_iff hne).mpr ⟨?_, ?_⟩
      · exact Nat.le_trans (Nat.le_of_eq (pow_two_add _ s)) (Nat.mul_le_mul_right _ hlow)
      · have hsum : F.fractionBits + j + s + 1 = F.fractionBits + j + 1 + s := by omega
        rw [hsum]
        exact Nat.lt_of_lt_of_eq (Nat.mul_lt_mul_of_pos_right hlt (pow_two_pos s)) (pow_two_add _ s).symm
    have hshift : F.fractionBits + j + s - F.fractionBits = j + s := by omega
    rw [hlog, hshift] at hfinite ⊢
    rw [pow_two_add j s, divNearestEven_mul _ _ (pow_two_pos s)] at hfinite ⊢
    omega
  · have hpow : n * Nat.pow 2 s = Nat.pow 2 F.fractionBits * Nat.pow 2 (j + s + 1) := by
      rw [heq, ← pow_two_add, ← pow_two_add]
      exact congrArg (Nat.pow 2) (by omega)
    have hlog : (n * Nat.pow 2 s).log2 = F.fractionBits + (j + s + 1) := by
      rw [hpow, ← pow_two_add]
      exact Nat.log2_two_pow
    have hnext : n = Nat.pow 2 F.fractionBits * 2 * Nat.pow 2 j := by
      rw [heq, Nat.add_right_comm, pow_two_add]
      rfl
    have hshift : F.fractionBits + (j + s + 1) - F.fractionBits = j + s + 1 := by omega
    rw [hlog, hshift, hpow, divNearestEven_mul_self _ (pow_two_pos _)] at hfinite ⊢
    rw [hnext, divNearestEven_mul_self _ (pow_two_pos j)]
    rw [Nat.add_mul (j + s)] at hfinite ⊢
    omega

private theorem divNearestEven_bounds : Nat.pow 2 F.fractionBits ≤ divNearestEven n (Nat.pow 2 j) ∧
    divNearestEven n (Nat.pow 2 j) ≤ Nat.pow 2 (F.fractionBits + 1) := by
  constructor
  · refine Nat.le_trans ?_ (div_le_divNearestEven _ _)
    rw [Nat.le_div_iff_mul_le (pow_two_pos j), ← pow_two_add]
    exact hlow
  · have heven : Nat.pow 2 (F.fractionBits + 1) % 2 = 0 := Nat.mul_mod_left _ 2
    rw [← Nat.not_lt, lt_divNearestEven_iff_of_even (pow_two_pos j) heven, ← pow_two_add, Nat.add_right_comm]
    omega

end Integers

/-- The word of a number whose significand may have been rounded up to the next power of two. -/
private theorem units_of_rounded {w : Nat} (hlow : Nat.pow 2 F.fractionBits ≤ w)
    (hhigh : w ≤ Nat.pow 2 (F.fractionBits + 1)) :
    F.units (s * Nat.pow 2 F.fractionBits + w) = w * Nat.pow 2 s := by
  rcases Nat.lt_or_eq_of_le hhigh with hlt | rfl
  · exact units_of_significand hlow hlt
  · have hdouble : Nat.pow 2 (F.fractionBits + 1) = Nat.pow 2 F.fractionBits * 2 := rfl
    have hword : s * Nat.pow 2 F.fractionBits + Nat.pow 2 (F.fractionBits + 1) =
        (s + 1) * Nat.pow 2 F.fractionBits + Nat.pow 2 F.fractionBits := by
      rw [hdouble, Nat.add_mul]
      omega
    have hpos := pow_two_pos F.fractionBits
    rw [hword, units_of_significand (Nat.le_refl _) (by omega), ← pow_two_add, ← pow_two_add]
    exact congrArg (Nat.pow 2) (by omega)

end FloatFormat

namespace FloatWord
variable {F G : FloatFormat} {n : Int} {j : Nat}

private theorem units_ofInt (hlow : Nat.pow 2 (F.fractionBits + j) ≤ n.natAbs)
    (hhigh : n.natAbs ≤ Nat.pow 2 (F.fractionBits + j + 1))
    (hrange : n.natAbs * Nat.pow 2 F.scale < Nat.pow 2 (F.fractionBits + (Nat.pow 2 F.exponentBits - 3))) :
    (ofInt F n).units = divNearestEven n.natAbs (Nat.pow 2 j) * Nat.pow 2 j * Nat.pow 2 F.scale := by
  obtain ⟨hleast, hmost⟩ := FloatFormat.divNearestEven_bounds hlow hhigh
  have hword : (ofInt F n).magnitude = _ := FloatFormat.roundMagnitude_integer hlow hhigh hrange
  rw [units, hword, FloatFormat.units_of_rounded hleast hmost, Nat.mul_assoc, ← pow_two_add]

private theorem round_eq_iff {negative : Bool} {a b : Nat} :
    round F negative a 1 = round F negative b 1 ↔ F.roundMagnitude a 1 = F.roundMagnitude b 1 :=
  ⟨congrArg magnitude, fun h => ext_magnitude rfl h⟩

/-- An integer of more digits reaches a narrower format in one step or in two, unless the first step takes it to the middle
of two numbers of that format. -/
theorem convert_ofInt_eq_iff {h : Nat} (hgap : G.fractionBits = F.fractionBits + 1 + h) (hh : h ≠ 0)
    (hlow : Nat.pow 2 (G.fractionBits + j) ≤ n.natAbs) (hhigh : n.natAbs ≤ Nat.pow 2 (G.fractionBits + j + 1))
    (hG : n.natAbs * Nat.pow 2 G.scale < Nat.pow 2 (G.fractionBits + (Nat.pow 2 G.exponentBits - 3)))
    (hF : Nat.pow 2 (G.fractionBits + j + 1) * Nat.pow 2 F.scale <
      Nat.pow 2 (F.fractionBits + (Nat.pow 2 F.exponentBits - 3))) :
    (ofInt G n).convert F = ofInt F n ↔ ¬BesideMiddle (Nat.pow 2 h) (Nat.pow 2 j) n.natAbs := by
  have hfinite : (ofInt G n).isFinite = true := isFinite_round _ (by rwa [Nat.div_one])
  obtain ⟨hleast, hmost⟩ := FloatFormat.divNearestEven_bounds hlow hhigh
  have hfirst_low : Nat.pow 2 (G.fractionBits + j) ≤ divNearestEven n.natAbs (Nat.pow 2 j) * Nat.pow 2 j :=
    Nat.le_trans (Nat.le_of_eq (pow_two_add _ _)) (Nat.mul_le_mul_right _ hleast)
  have hfirst_high : divNearestEven n.natAbs (Nat.pow 2 j) * Nat.pow 2 j ≤ Nat.pow 2 (G.fractionBits + j + 1) := by
    rw [Nat.add_right_comm, pow_two_add]
    exact Nat.mul_le_mul_right _ hmost
  -- Both integers that the narrower format gets are of the same exponent, so the words differ by the significands only.
  have hword {m : Nat} (hlow : Nat.pow 2 (G.fractionBits + j) ≤ m) (hhigh : m ≤ Nat.pow 2 (G.fractionBits + j + 1)) :
      F.roundMagnitude (m * Nat.pow 2 F.scale) 1 = (1 + h + j + F.scale) * Nat.pow 2 F.fractionBits +
        divNearestEven m (Nat.pow 2 (1 + h + j)) := by
    have hrange := Nat.lt_of_le_of_lt (Nat.mul_le_mul_right (Nat.pow 2 F.scale) hhigh) hF
    rw [hgap, Nat.add_assoc F.fractionBits, Nat.add_assoc F.fractionBits] at hlow hhigh
    exact FloatFormat.roundMagnitude_integer hlow hhigh hrange
  have hpow : Nat.pow 2 (1 + h + j) = 2 * Nat.pow 2 h * Nat.pow 2 j := by
    rw [pow_two_add, pow_two_add]
  have heven : Nat.pow 2 h % 2 = 0 := by
    obtain ⟨k, rfl⟩ := Nat.exists_eq_succ_of_ne_zero hh
    exact Nat.mul_mod_left _ 2
  rw [convert_of_units hfinite (units_ofInt hlow hhigh hG), ofInt, ofInt]
  refine round_eq_iff.trans ?_
  rw [hword hfirst_low hfirst_high, hword hlow hhigh, Nat.add_right_inj, hpow, divNearestEven_mul _ _ (pow_two_pos j)]
  exact divNearestEven_divNearestEven_eq_iff (pow_two_pos j) (pow_two_pos h) heven

/-- Whether the double next to an integer stands in the middle of two numbers of single precision, and the integer beside
it, on the side of the number that a tie does not go to. Doubles of this size are multiples of a power of two, the numbers
of single precision of one that is `2 ^ 29` times as large. -/
def ShiftedByDouble (n : Int) : Prop :=
  ∃ e, Nat.pow 2 (52 + e) ≤ n.natAbs ∧ n.natAbs < Nat.pow 2 (53 + e) ∧
    BesideMiddle (Nat.pow 2 28) (Nat.pow 2 e) n.natAbs

/-- The words that are the same number of single precision whether or not they have been doubles before. -/
theorem single_of_double_iff (hword : n.natAbs < Nat.pow 2 64) :
    (ofInt .binary64 n).convert .binary32 = ofInt .binary32 n ↔ ¬ShiftedByDouble n := by
  rcases Nat.lt_or_ge n.natAbs (Nat.pow 2 52) with hsmall | hlarge
  · refine iff_of_true (convert_ofInt_of_fitsSignificand ?_ ?_) ?_
    · exact ⟨n.natAbs, 0, Nat.lt_trans hsmall (by decide), (Nat.mul_one _).symm⟩
    · exact Nat.lt_of_lt_of_le (Nat.mul_lt_mul_of_pos_right hsmall (pow_two_pos _)) (by decide +kernel)
    · rintro ⟨e, hlow, -⟩
      exact absurd (Nat.lt_of_le_of_lt hlow hsmall)
        (Nat.not_lt.mpr (Nat.pow_le_pow_right Nat.two_pos (Nat.le_add_right 52 e)))
  · have hne : n.natAbs ≠ 0 := Nat.ne_of_gt (Nat.lt_of_lt_of_le (pow_two_pos 52) hlarge)
    obtain ⟨e, he⟩ : ∃ e, n.natAbs.log2 = 52 + e := Nat.exists_eq_add_of_le ((Nat.le_log2 hne).mpr hlarge)
    obtain ⟨hlow, hhigh⟩ := (Nat.log2_eq_iff hne).mp he
    have hexponent : e < 12 := by
      have := (Nat.log2_lt hne).mpr hword
      omega
    have hpow : Nat.pow 2 (52 + e + 1) ≤ Nat.pow 2 64 := Nat.pow_le_pow_right Nat.two_pos (by omega)
    rw [convert_ofInt_eq_iff (F := .binary32) (G := .binary64) (h := 28) rfl (by decide) hlow (Nat.le_of_lt hhigh),
      not_iff_not]
    · refine ⟨fun h => ⟨e, hlow, Nat.add_right_comm 52 e 1 ▸ hhigh, h⟩, ?_⟩
      rintro ⟨e', hlow', hhigh', h⟩
      have heq : n.natAbs.log2 = 52 + e' := (Nat.log2_eq_iff hne).mpr ⟨hlow', Nat.add_right_comm 52 e' 1 ▸ hhigh'⟩
      obtain rfl : e' = e := by omega
      exact h
    · exact Nat.lt_trans (Nat.mul_lt_mul_of_pos_right hword (pow_two_pos _)) (by decide +kernel)
    · exact Nat.lt_of_le_of_lt (Nat.mul_le_mul_right _ hpow) (by decide +kernel)

end FloatWord
end TensorEval
