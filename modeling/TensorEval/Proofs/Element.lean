import TensorEval.Element
import TensorEval.Proofs.Float.Selection

/-! Elements: their stored bits, the way from a type to itself, and the operators where a NaN or the order of the operands
is at stake. -/
namespace TensorEval

namespace Carrier

/-- The stored bits tell elements apart. -/
theorem code_inj : ∀ {c : Carrier} {v w : c.Value}, c.code v = c.code w ↔ v = w
  | flag, v, w => by cases v <;> cases w <;> decide
  | signed _, _, _ => BitVec.toNat_inj
  | floating _, _, _ => FloatWord.bits_inj

theorem sameBits_refl (c : Carrier) (v : c.Value) : c.sameBits v v = true := by
  rw [sameBits, decide_eq_true rfl, Bool.true_or]

theorem sameBits_iff {c : Carrier} {v w : c.Value} :
    c.sameBits v w = true ↔ v = w ∨ c.isNaN v = true ∧ c.isNaN w = true := by
  rw [sameBits, Bool.or_eq_true, Bool.and_eq_true, decide_eq_true_iff, code_inj]

theorem sameBits_of_eq {c : Carrier} {v w : c.Value} (h : v = w) : c.sameBits v w = true := sameBits_iff.mpr (Or.inl h)

theorem eq_of_sameBits {c : Carrier} {v w : c.Value} (h : c.sameBits v w = true) (hnan : c.isNaN w = false) : v = w := by
  refine (sameBits_iff.mp h).resolve_right fun hnans => ?_
  rw [hnan] at hnans
  exact Bool.false_ne_true hnans.2

theorem sameBits_symm {c : Carrier} {v w : c.Value} (h : c.sameBits v w = true) : c.sameBits w v = true :=
  sameBits_iff.mpr ((sameBits_iff.mp h).imp Eq.symm And.symm)

theorem sameBits_trans {c : Carrier} {u v w : c.Value} (h : c.sameBits u v = true) (h' : c.sameBits v w = true) :
    c.sameBits u w = true := by
  rcases sameBits_iff.mp h with rfl | ⟨hu, hv⟩
  · exact h'
  · refine sameBits_iff.mpr (Or.inr ⟨hu, ?_⟩)
    rcases sameBits_iff.mp h' with rfl | ⟨-, hw⟩
    · exact hv
    · exact hw

section NaN
variable {F : FloatFormat} {x y : FloatWord F}

private theorem combineFloats_of_isNaN (op : Operator) (h : x.isNaN = true ∨ y.isNaN = true) :
    combineFloats op x y = .nan F := by
  have hor : (x.isNaN || y.isNaN) = true := by simpa using h
  cases op with
  | mul => exact if_pos hor
  | add => exact if_pos hor
  | max => exact FloatWord.maximum_of_isNaN h
  | min => exact FloatWord.minimum_of_isNaN h

/-- An operator with a NaN gives the quiet NaN in every format. -/
theorem combine_of_isNaN (op : Operator) (h : x.isNaN = true ∨ y.isNaN = true) :
    (floating F).combine op x y = FloatWord.nan F := by
  have hwide : (x.convert .binary32).isNaN = true ∨ (y.convert .binary32).isNaN = true :=
    h.imp (FloatWord.isNaN_convert _) (FloatWord.isNaN_convert _)
  cases F with
  | binary64 | binary32 => exact combineFloats_of_isNaN op h
  | binary16 =>
    rw [combine, combineFloats_of_isNaN op hwide]
    rfl
  | bfloat16 =>
    rw [combine, combineFloats_of_isNaN op hwide]
    rfl

/-- No operator sees the bits of a NaN. -/
theorem combine_congr (op : Operator) {c : Carrier} {v v' w w' : c.Value} (hv : c.sameBits v v' = true)
    (hw : c.sameBits w w' = true) : c.combine op v w = c.combine op v' w' := by
  cases c with
  | flag | signed width =>
    rw [eq_of_sameBits hv rfl, eq_of_sameBits hw rfl]
  | floating F =>
    rcases sameBits_iff.mp hv with rfl | ⟨hnan, hnan'⟩
    · rcases sameBits_iff.mp hw with rfl | ⟨hnan, hnan'⟩
      · rfl
      · rw [combine_of_isNaN op (Or.inr hnan), combine_of_isNaN op (Or.inr hnan')]
    · rw [combine_of_isNaN op (Or.inl hnan), combine_of_isNaN op (Or.inl hnan')]

end NaN

section Order
variable {op : Operator}

/-- The two zeros of a floating-point format, in either order. -/
def OppositeZeros : (c : Carrier) → c.Value → c.Value → Prop
  | flag, _, _ => False
  | signed _, _, _ => False
  | floating _, x, y => FloatWord.OppositeZeros x y

private theorem combineFloats_comm (hop : op = .max ∨ op = .min) {F : FloatFormat} {x y : FloatWord F}
    (h : ¬FloatWord.OppositeZeros x y) : combineFloats op x y = combineFloats op y x := by
  rcases hop with rfl | rfl
  · exact FloatWord.maximum_comm h
  · exact FloatWord.minimum_comm h

private theorem combineFloats_of_oppositeZeros (hop : op = .max ∨ op = .min) {F : FloatFormat} {x y : FloatWord F}
    (h : FloatWord.OppositeZeros x y) : combineFloats op x y = x := by
  rcases hop with rfl | rfl
  · exact h.maximum_eq
  · exact h.minimum_eq

/-- Maximum and minimum take two elements that are no opposite zeros in either order. -/
theorem combine_comm (hop : op = .max ∨ op = .min) : ∀ {c : Carrier} {v w : c.Value}, ¬c.OppositeZeros v w →
    c.combine op v w = c.combine op w v
  | flag, v, w, _ => by
    rcases hop with rfl | rfl
    · exact Bool.or_comm v w
    · exact Bool.and_comm v w
  | signed width, v, w, _ => by
    have hslt (a b : BitVec width) : a.slt b = decide (a.toInt < b.toInt) := rfl
    rcases Int.lt_trichotomy v.toInt w.toInt with hlt | heq | hlt
    · rcases hop with rfl | rfl <;> simp [combine, hslt, hlt, Int.lt_asymm hlt]
    · rw [BitVec.eq_of_toInt_eq heq]
    · rcases hop with rfl | rfl <;> simp [combine, hslt, hlt, Int.lt_asymm hlt]
  | floating .binary64, _, _, h => combineFloats_comm hop h
  | floating .binary32, _, _, h => combineFloats_comm hop h
  | floating .binary16, _, _, h => congrArg (FloatWord.convert .binary16)
      (combineFloats_comm hop (mt (FloatWord.oppositeZeros_convert (by decide)).mp h))
  | floating .bfloat16, _, _, h => congrArg (FloatWord.convert .bfloat16)
      (combineFloats_comm hop (mt (FloatWord.oppositeZeros_convert (by decide)).mp h))

private theorem convert_convert_of_isZero {F G : FloatFormat} {x : FloatWord F} (h : x.isZero = true) :
    (x.convert G).convert F = x := by
  rw [FloatWord.eq_zero_of_isZero h, FloatWord.convert_zero, FloatWord.convert_zero]

private theorem combine_of_oppositeZeros (hop : op = .max ∨ op = .min) :
    ∀ {c : Carrier} {v w : c.Value}, c.OppositeZeros v w →
    c.combine op v w = v
  | floating .binary64, _, _, h => combineFloats_of_oppositeZeros hop h
  | floating .binary32, _, _, h => combineFloats_of_oppositeZeros hop h
  | floating .binary16, _, _, h => by
    rw [combine, combineFloats_of_oppositeZeros hop ((FloatWord.oppositeZeros_convert (by decide)).mpr h)]
    exact convert_convert_of_isZero h.1
  | floating .bfloat16, _, _, h => by
    rw [combine, combineFloats_of_oppositeZeros hop ((FloatWord.oppositeZeros_convert (by decide)).mpr h)]
    exact convert_convert_of_isZero h.1

theorem OppositeZeros.symm : ∀ {c : Carrier} {v w : c.Value}, c.OppositeZeros v w → c.OppositeZeros w v
  | floating _, _, _, h => FloatWord.OppositeZeros.symm h

theorem OppositeZeros.not_sameBits : ∀ {c : Carrier} {v w : c.Value}, c.OppositeZeros v w → c.sameBits v w = false
  | floating F, v, w, h => by
    refine Bool.eq_false_iff.mpr fun hsame => ?_
    have heq : v = w := eq_of_sameBits hsame (FloatWord.isNaN_of_isZero h.2.1)
    exact h.2.2 (congrArg FloatWord.negative heq)

/-- The order of the operands shows in the bits of a maximum or minimum of opposite zeros, and nowhere else. -/
theorem sameBits_combine_swap_iff (hop : op = .max ∨ op = .min) {c : Carrier} {v w : c.Value} :
    c.sameBits (c.combine op v w) (c.combine op w v) = true ↔ ¬c.OppositeZeros v w := by
  constructor
  · intro hsame h
    rw [combine_of_oppositeZeros hop h, combine_of_oppositeZeros hop h.symm, h.not_sameBits] at hsame
    exact Bool.false_ne_true hsame
  · intro h
    rw [combine_comm hop h]
    exact sameBits_refl c _

end Order

end Carrier

namespace Element
variable {s t : ElementType}

theorem convert_of_isFloat (h : t.isFloat = true) (v : Element s) :
    convert t v = t.carrier.ofDouble (s.carrier.toDouble v) := if_pos h

theorem convert_of_not_isFloat (h : t.isFloat = false) (v : Element s) :
    convert t v = t.carrier.ofInteger (s.carrier.toInteger v) := if_neg (h ▸ Bool.false_ne_true)

theorem not_isNaN (ht : t.isFloat = false) (v : Element t) : t.carrier.isNaN v = false := by
  cases t with
  | i1 | i8 | i16 | i32 | i64 => rfl
  | f16 | bf16 | f32 | f64 => exact absurd ht.symm Bool.false_ne_true

private theorem isNaN_toDouble {v : Element s} (h : s.carrier.isNaN v = true) :
    (s.carrier.toDouble v).isNaN = true := by
  cases s with
  | i1 | i8 | i16 | i32 | i64 => exact absurd h Bool.false_ne_true
  | f16 | bf16 | f32 | f64 => exact FloatWord.isNaN_widen h

theorem not_isNaN_toDouble {v : Element s} (h : s.carrier.isNaN v = false) : (s.carrier.toDouble v).isNaN = false := by
  cases s with
  | i1 | i8 | i16 | i32 | i64 => exact FloatWord.not_isNaN_round _ _ _ _
  | f16 | bf16 | f32 | f64 => exact FloatWord.not_isNaN_widen h

theorem isNaN_convert (ht : t.isFloat = true) {v : Element s} (h : s.carrier.isNaN v = true) :
    t.carrier.isNaN (convert t v) = true := by
  rw [convert_of_isFloat ht]
  cases t with
  | i1 | i8 | i16 | i32 | i64 => cases ht
  | f16 | bf16 | f32 | f64 => exact FloatWord.isNaN_narrow _ (isNaN_toDouble h)

private theorem toInteger_of_isNaN {v : Element s} (h : s.carrier.isNaN v = true) : s.carrier.toInteger v = 0 := by
  cases s with
  | i1 | i8 | i16 | i32 | i64 => exact absurd h Bool.false_ne_true
  | f16 | bf16 | f32 | f64 => exact if_pos (FloatWord.isNaN_widen h)

/-- No conversion sees the bits of a NaN. -/
theorem sameBits_convert_congr (t : ElementType) {v w : Element s} (h : s.carrier.sameBits v w = true) :
    t.carrier.sameBits (convert t v) (convert t w) = true := by
  rcases Carrier.sameBits_iff.mp h with rfl | ⟨hv, hw⟩
  · exact Carrier.sameBits_refl _ _
  · cases ht : t.isFloat with
    | true => exact Carrier.sameBits_iff.mpr (Or.inr ⟨isNaN_convert ht hv, isNaN_convert ht hw⟩)
    | false =>
      rw [convert_of_not_isFloat ht, convert_of_not_isFloat ht, toInteger_of_isNaN hv, toInteger_of_isNaN hw]
      exact Carrier.sameBits_refl _ _

private theorem ofInt_eq_ofInt_iff {width : Nat} {m n : Int} :
    BitVec.ofInt width m = BitVec.ofInt width n ↔ ((Nat.pow 2 width : Nat) : Int) ∣ m - n := by
  rw [← BitVec.toInt_inj, BitVec.toInt_ofInt, BitVec.toInt_ofInt, Int.bmod_eq_bmod_iff_bmod_sub_eq_zero,
    ← Int.dvd_iff_bmod_eq_zero]
  rfl

/-- Integers are the same element if their lowest bits are the same, as many as the type has. -/
theorem ofInteger_eq_iff (ht : t.isFloat = false) (hflag : t ≠ .i1) {m n : Int} :
    t.carrier.ofInteger m = t.carrier.ofInteger n ↔ ((Nat.pow 2 (8 * t.byteWidth) : Nat) : Int) ∣ m - n := by
  cases t with
  | i1 => exact absurd rfl hflag
  | i8 | i16 | i32 | i64 => exact ofInt_eq_ofInt_iff
  | f16 | bf16 | f32 | f64 => exact absurd ht.symm Bool.false_ne_true

/-- The way from a type to itself changes nothing but the payload of NaNs. -/
theorem sameBits_convert_self (v : Element t) : t.carrier.sameBits (convert t v) v = true := by
  have hfloat {F : FloatFormat} (x : FloatWord F) : (Carrier.floating F).sameBits (x.widen.narrow F) x = true := by
    refine Carrier.sameBits_iff.mpr ?_
    cases hnan : x.isNaN with
    | false => exact Or.inl (FloatWord.narrow_widen_of_not_isNaN hnan)
    | true => exact Or.inr ⟨FloatWord.isNaN_narrow F (FloatWord.isNaN_widen hnan), hnan⟩
  cases t with
  | i1 => cases v <;> rfl
  | i8 | i16 | i32 | i64 =>
    rw [convert_of_not_isFloat rfl]
    exact Carrier.sameBits_iff.mpr (Or.inl BitVec.ofInt_toInt)
  | f16 | bf16 | f32 | f64 =>
    rw [convert_of_isFloat rfl]
    exact hfloat v

end Element

end TensorEval
