import TensorEval.Proofs.Float.Exact

/-! Maximum and minimum of floating-point numbers, and their operands in the other order. Numbers that differ are told
apart, and so the order does not matter. Numbers of the same value are the same number, with the exception of the two
zeros: of these the first operand is taken. In a wider format numbers are in the same order. Sums and products are the same
in either order of the operands. -/
namespace TensorEval.FloatWord
variable {F G : FloatFormat} {x y : FloatWord F}

def OppositeZeros (x y : FloatWord F) : Prop := x.isZero = true ∧ y.isZero = true ∧ x.negative ≠ y.negative

instance (x y : FloatWord F) : Decidable (OppositeZeros x y) := inferInstanceAs (Decidable (_ ∧ _))

theorem OppositeZeros.symm (h : OppositeZeros x y) : OppositeZeros y x := ⟨h.2.1, h.1, h.2.2.symm⟩

theorem isZero_iff : x.isZero = true ↔ x.magnitude = 0 := decide_eq_true_iff

theorem isNaN_of_isZero (h : x.isZero = true) : x.isNaN = false := by
  rw [isNaN, isZero_iff.mp h]
  exact decide_eq_false (Nat.not_lt_zero _)

private theorem magnitude_le_infinity (h : x.isNaN = false) : x.magnitude ≤ F.infinity :=
  Nat.le_of_not_lt (of_decide_eq_false h)

private theorem units_zero (F : FloatFormat) : F.units 0 = 0 := FloatFormat.units_of_lt (Nat.two_pow_pos _)

theorem units_eq_zero_iff (h : x.isNaN = false) : x.units = 0 ↔ x.isZero = true := by
  rw [isZero_iff]
  constructor
  · intro hunits
    exact FloatFormat.eq_of_units_eq (magnitude_le_infinity h) (Nat.zero_le _) (hunits.trans (units_zero F).symm)
  · intro hzero
    rw [units, hzero, units_zero]

/-- Numbers of the same value are the same, or zeros. -/
theorem eq_of_value_eq (hx : x.isNaN = false) (hy : y.isNaN = false) (h : x.value = y.value) :
    x = y ∨ OppositeZeros x y := by
  have hunits : x.units = y.units := by rw [← natAbs_value x, ← natAbs_value y, h]
  have hmagnitude : x.magnitude = y.magnitude :=
    FloatFormat.eq_of_units_eq (magnitude_le_infinity hx) (magnitude_le_infinity hy) hunits
  by_cases hsign : x.negative = y.negative
  · exact Or.inl (ext_magnitude hsign hmagnitude)
  · right
    -- Of two signs one is a minus, so the value is its own negative.
    have hzero : x.units = 0 := by
      rw [value, value, ← hunits] at h
      cases hn : x.negative <;> cases hm : y.negative
      · exact absurd (hn.trans hm.symm) hsign
      · rw [hn, hm, if_neg Bool.false_ne_true, if_pos rfl] at h
        omega
      · rw [hn, hm, if_neg Bool.false_ne_true, if_pos rfl] at h
        omega
      · exact absurd (hn.trans hm.symm) hsign
    exact ⟨(units_eq_zero_iff hx).mp hzero, (units_eq_zero_iff hy).mp (hunits ▸ hzero), hsign⟩

theorem value_eq_zero (h : x.isZero = true) : x.value = 0 := by
  have hunits : x.units = 0 := (units_eq_zero_iff (isNaN_of_isZero h)).mpr h
  rw [value, hunits]
  split <;> rfl

private theorem OppositeZeros.value_eq (h : OppositeZeros x y) : x.value = y.value :=
  (value_eq_zero h.1).trans (value_eq_zero h.2.1).symm

section Order

theorem maximum_of_isNaN (h : x.isNaN = true ∨ y.isNaN = true) : x.maximum y = nan F := by
  rw [maximum, if_pos (by simpa using h)]

theorem minimum_of_isNaN (h : x.isNaN = true ∨ y.isNaN = true) : x.minimum y = nan F := by
  rw [minimum, if_pos (by simpa using h)]

theorem maximum_of_numbers (hx : x.isNaN = false) (hy : y.isNaN = false) :
    x.maximum y = if y.value ≤ x.value then x else y := by
  simp [maximum, le, hx, hy]

theorem minimum_of_numbers (hx : x.isNaN = false) (hy : y.isNaN = false) :
    x.minimum y = if x.value ≤ y.value then x else y := by
  simp [minimum, le, hx, hy]

theorem OppositeZeros.maximum_eq (h : OppositeZeros x y) : x.maximum y = x := by
  rw [maximum_of_numbers (isNaN_of_isZero h.1) (isNaN_of_isZero h.2.1), if_pos (Int.le_of_eq h.value_eq.symm)]

theorem OppositeZeros.minimum_eq (h : OppositeZeros x y) : x.minimum y = x := by
  rw [minimum_of_numbers (isNaN_of_isZero h.1) (isNaN_of_isZero h.2.1), if_pos (Int.le_of_eq h.value_eq)]

private theorem choice_comm {r : Int → Int → Prop} [DecidableRel r] (htotal : ∀ a b, r a b ∨ r b a)
    (hantisymm : ∀ a b, r a b → r b a → a = b) (hx : x.isNaN = false) (hy : y.isNaN = false) (h : ¬OppositeZeros x y) :
    (if r x.value y.value then x else y) = if r y.value x.value then y else x := by
  by_cases hxy : r x.value y.value <;> by_cases hyx : r y.value x.value
  · obtain rfl := (eq_of_value_eq hx hy (hantisymm _ _ hxy hyx)).resolve_right h
    rfl
  · rw [if_pos hxy, if_neg hyx]
  · rw [if_neg hxy, if_pos hyx]
  · exact absurd (htotal x.value y.value) (not_or.mpr ⟨hxy, hyx⟩)

theorem maximum_comm (h : ¬OppositeZeros x y) : x.maximum y = y.maximum x := by
  by_cases hnan : x.isNaN = true ∨ y.isNaN = true
  · rw [maximum_of_isNaN hnan, maximum_of_isNaN hnan.symm]
  · obtain ⟨hx, hy⟩ : x.isNaN = false ∧ y.isNaN = false := by simpa using hnan
    rw [maximum_of_numbers hx hy, maximum_of_numbers hy hx]
    exact choice_comm (r := fun a b => b ≤ a) (fun a b => Int.le_total b a) (fun a b hba hab => Int.le_antisymm hab hba)
      hx hy h

theorem minimum_comm (h : ¬OppositeZeros x y) : x.minimum y = y.minimum x := by
  by_cases hnan : x.isNaN = true ∨ y.isNaN = true
  · rw [minimum_of_isNaN hnan, minimum_of_isNaN hnan.symm]
  · obtain ⟨hx, hy⟩ : x.isNaN = false ∧ y.isNaN = false := by simpa using hnan
    rw [minimum_of_numbers hx hy, minimum_of_numbers hy hx]
    exact choice_comm Int.le_total (fun _ _ => Int.le_antisymm) hx hy h

end Order

section Conversion

theorem convert_zero (F G : FloatFormat) (negative : Bool) : (zero F negative).convert G = zero G negative := by
  rw [convert_of_isFinite G (isFinite_zero F negative)]
  refine ext_magnitude rfl (G.roundMagnitude_eq_zero ?_)
  have hunits : (zero F negative).units = 0 := units_zero F
  rw [hunits, Nat.zero_mul]
  exact Nat.two_pow_pos _

theorem eq_zero_of_isZero (h : x.isZero = true) : x = zero F x.negative := ext_magnitude rfl (isZero_iff.mp h)

private theorem isZero_convert (h : F.Within G) (x : FloatWord F) : (x.convert G).isZero = x.isZero := by
  rw [Bool.eq_iff_iff]
  cases hnan : x.isNaN with
  | true =>
    refine iff_of_false (fun hzero => ?_) fun hzero => ?_
    · exact absurd ((isNaN_of_isZero hzero).symm.trans (isNaN_convert G hnan)) Bool.false_ne_true
    · exact absurd ((isNaN_of_isZero hzero).symm.trans hnan) Bool.false_ne_true
  | false =>
    cases hfinite : x.isFinite with
    | true =>
      obtain ⟨hconverted, hunits⟩ := units_convert h hfinite
      rw [← units_eq_zero_iff hnan, ← units_eq_zero_iff (not_isNaN_of_isFinite hconverted), hunits]
      exact Nat.mul_eq_zero.trans (or_iff_left (Nat.ne_of_gt (Nat.two_pow_pos _)))
    | false =>
      rw [eq_infinite hfinite hnan, convert_infinite, isZero_iff, isZero_iff]
      have hpos (H : FloatFormat) : H.infinity ≠ 0 := by cases H <;> decide
      exact iff_of_false (hpos G) (hpos F)

theorem oppositeZeros_convert (h : F.Within G) : OppositeZeros (x.convert G) (y.convert G) ↔ OppositeZeros x y := by
  unfold OppositeZeros
  rw [isZero_convert h, isZero_convert h, negative_convert, negative_convert]

private theorem isFinite_convert (h : F.Within G) (hx : x.isNaN = false) : (x.convert G).isFinite = x.isFinite := by
  cases hfinite : x.isFinite with
  | true => exact (units_convert h hfinite).1
  | false =>
    rw [eq_infinite hfinite hx, convert_infinite]
    exact decide_eq_false (Nat.lt_irrefl _)

private theorem units_of_infinite (hfinite : x.isFinite = false) (hx : x.isNaN = false) :
    x.units = F.units F.infinity :=
  congrArg F.units (congrArg magnitude (eq_infinite hfinite hx))

private theorem units_lt_units_of_infinite (hx : x.isFinite = true) (hfinite : y.isFinite = false)
    (hy : y.isNaN = false) :
    x.units < y.units := by
  have hbits : 3 ≤ Nat.pow 2 F.exponentBits := by cases F <;> decide
  rw [units_of_infinite hfinite hy]
  refine Nat.lt_of_lt_of_le (FloatFormat.units_lt_two_pow (isFinite_iff.mp hx)) (F.le_units ?_)
  exact Nat.mul_le_mul_right _ (by omega)

private theorem units_convert_lt_iff (h : F.Within G) (hx : x.isNaN = false) (hy : y.isNaN = false) :
    (x.convert G).units < (y.convert G).units ↔ x.units < y.units := by
  have hx' := not_isNaN_convert G hx
  have hy' := not_isNaN_convert G hy
  have hxconvert := isFinite_convert h hx
  have hyconvert := isFinite_convert h hy
  cases hxf : x.isFinite with
  | true =>
    rw [hxf] at hxconvert
    cases hyf : y.isFinite with
    | true =>
      rw [(units_convert h hxf).2, (units_convert h hyf).2]
      exact Nat.mul_lt_mul_right (Nat.two_pow_pos _)
    | false =>
      rw [hyf] at hyconvert
      exact iff_of_true (units_lt_units_of_infinite hxconvert hyconvert hy') (units_lt_units_of_infinite hxf hyf hy)
  | false =>
    rw [hxf] at hxconvert
    cases hyf : y.isFinite with
    | true =>
      rw [hyf] at hyconvert
      exact iff_of_false (Nat.lt_asymm (units_lt_units_of_infinite hyconvert hxconvert hx'))
        (Nat.lt_asymm (units_lt_units_of_infinite hyf hxf hx))
    | false =>
      rw [hyf] at hyconvert
      rw [units_of_infinite hxconvert hx', units_of_infinite hyconvert hy', units_of_infinite hxf hx,
        units_of_infinite hyf hy]
      exact iff_of_false (Nat.lt_irrefl _) (Nat.lt_irrefl _)

private theorem units_convert_eq_zero_iff (h : F.Within G) (hx : x.isNaN = false) :
    (x.convert G).units = 0 ↔ x.units = 0 := by
  rw [units_eq_zero_iff (not_isNaN_convert G hx), isZero_convert h, units_eq_zero_iff hx]

/-- Numbers have the same order in a wider format. -/
theorem value_convert_le_iff (h : F.Within G) (hx : x.isNaN = false) (hy : y.isNaN = false) :
    (x.convert G).value ≤ (y.convert G).value ↔ x.value ≤ y.value := by
  have hlt := units_convert_lt_iff h hx hy
  have hgt := units_convert_lt_iff h hy hx
  have hxzero := units_convert_eq_zero_iff h hx
  have hyzero := units_convert_eq_zero_iff h hy
  unfold value
  rw [negative_convert, negative_convert]
  -- Of two positive numbers the smaller one has the fewer units, of two negative ones the other one.
  cases x.negative <;> cases y.negative <;> simp only [if_true, Bool.false_eq_true, if_false] <;> omega

/-- A number that is taken to a wider format and back is the same. -/
theorem convert_convert_self (h : F.Within G) (hx : x.isNaN = false) : (x.convert G).convert F = x := by
  cases hfinite : x.isFinite with
  | true => rw [convert_convert h F hfinite, convert_self hfinite]
  | false => rw [eq_infinite hfinite hx, convert_infinite, convert_infinite]

end Conversion

section Arithmetic

private theorem eq_of_isInfinite (hx : x.isInfinite = true) (hy : y.isInfinite = true) (h : x.negative = y.negative) :
    x = y :=
  ext_magnitude h ((of_decide_eq_true hx).trans (of_decide_eq_true hy).symm)

protected theorem add_comm (x y : FloatWord F) : x.add y = y.add x := by
  unfold add
  rw [Bool.or_comm x.isNaN, Int.add_comm x.value, Bool.and_comm x.negative]
  split
  · rfl
  cases hx : x.isInfinite <;> cases hy : y.isInfinite <;> dsimp only
  · rfl
  · rfl
  · rfl
  · -- Two infinities are one number, or they have no sum.
    by_cases h : x.negative = y.negative
    · rw [eq_of_isInfinite hx hy h]
    · simp [h, Ne.symm h]

protected theorem mul_comm (x y : FloatWord F) : x.mul y = y.mul x := by
  have hsign : (x.negative != y.negative) = (y.negative != x.negative) := Bool.xor_comm _ _
  unfold mul
  rw [Bool.or_comm x.isNaN, Bool.or_comm x.isInfinite, Bool.or_comm x.isZero, Nat.mul_comm x.units, hsign]

end Arithmetic

end TensorEval.FloatWord
