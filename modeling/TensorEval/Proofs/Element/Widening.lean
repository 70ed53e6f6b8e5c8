import TensorEval.Proofs.Element
import TensorEval.Proofs.Float.Widening

/-! Wider types. A type keeps the elements of another one if it has all of their values: it gives them the same double, or
the same integer if it holds no fractions, and so the way there and back changes nothing but the payload of NaNs. Each type
has an element that no other types keep. -/
namespace TensorEval

namespace Carrier

/-- Whether every value of `c` is one of `d`. -/
def FitsIn : (c d : Carrier) → Prop
  | flag, flag => True
  | flag, signed width => 2 ≤ width
  | flag, floating _ => True
  | signed width, signed width' => width ≤ width'
  | signed width, floating F => width ≤ F.fractionBits + 2
  | floating F, floating G => F.Within G
  | signed _, flag => False
  | floating _, flag => False
  | floating _, signed _ => False

instance : (c d : Carrier) → Decidable (c.FitsIn d)
  | flag, flag => inferInstanceAs (Decidable True)
  | flag, signed width => inferInstanceAs (Decidable (2 ≤ width))
  | flag, floating _ => inferInstanceAs (Decidable True)
  | signed width, signed width' => inferInstanceAs (Decidable (width ≤ width'))
  | signed width, floating F => inferInstanceAs (Decidable (width ≤ F.fractionBits + 2))
  | floating F, floating G => inferInstanceAs (Decidable (F.Within G))
  | signed _, flag => inferInstanceAs (Decidable False)
  | floating _, flag => inferInstanceAs (Decidable False)
  | floating _, signed _ => inferInstanceAs (Decidable False)

theorem natAbs_toInt_le {width k : Nat} (h : width ≤ k + 1) (v : BitVec width) : v.toInt.natAbs ≤ Nat.pow 2 k := by
  have hpow : (2 : Int) ^ width ≤ 2 ^ (k + 1) := by exact_mod_cast Nat.pow_le_pow_right (by decide) h
  have hcast : ((Nat.pow 2 k : Nat) : Int) = 2 ^ k := rfl
  have hlow := v.le_two_mul_toInt
  have hhigh := v.two_mul_toInt_lt
  omega

private theorem exists_widen_eq {c : Carrier} {F : FloatFormat} (h : c.FitsIn (floating F)) {v : c.Value}
    (hnan : c.isNaN v = false) : ∃ y : FloatWord F, y.isNaN = false ∧ y.widen = c.toDouble v := by
  cases c with
  | flag =>
    have hle : (Bool.toInt v).natAbs ≤ Nat.pow 2 (F.fractionBits + 1) :=
      Nat.le_trans (by cases v <;> decide) (Nat.two_pow_pos _)
    exact ⟨_, FloatWord.widen_ofInt hle⟩
  | signed width => exact ⟨_, FloatWord.widen_ofInt (natAbs_toInt_le h v)⟩
  | floating E => exact ⟨_, FloatWord.not_isNaN_convert F hnan, FloatWord.widen_convert h hnan⟩

private theorem toDouble_ofDouble_toDouble {c : Carrier} {F : FloatFormat} (h : c.FitsIn (floating F)) {v : c.Value}
    (hnan : c.isNaN v = false) : (floating F).toDouble ((floating F).ofDouble (c.toDouble v)) = c.toDouble v := by
  obtain ⟨y, hy, hdouble⟩ := exists_widen_eq h hnan
  rw [← hdouble]
  exact congrArg FloatWord.widen (FloatWord.narrow_widen_of_not_isNaN hy)

private theorem toInteger_ofInt {width : Nat} {n : Int} (hlow : -(Nat.pow 2 width : Int) ≤ n * 2)
    (hhigh : n * 2 < (Nat.pow 2 width : Nat)) : (signed width).toInteger ((signed width).ofInteger n) = n := by
  have hcast : ((Nat.pow 2 width : Nat) : Int) = 2 ^ width := rfl
  change (BitVec.ofInt width n).toInt = n
  rw [BitVec.toInt_ofInt]
  exact Int.bmod_eq_of_le_mul_two (by simpa using hlow) (by simpa using hhigh)

private theorem toInteger_ofInteger_toInteger : ∀ {c d : Carrier}, c.FitsIn d → (∀ F, d ≠ floating F) → ∀ v : c.Value,
    d.toInteger (d.ofInteger (c.toInteger v)) = c.toInteger v
  | flag, flag, _, _, v => by cases v <;> rfl
  | flag, signed width, h, _, v => by
    have hpow : 4 ≤ Nat.pow 2 width := Nat.pow_le_pow_right (n := 2) (by decide) h
    have hle : 0 ≤ Bool.toInt v ∧ Bool.toInt v ≤ 1 := by cases v <;> decide
    exact toInteger_ofInt (by change _ ≤ Bool.toInt v * 2; omega) (by change Bool.toInt v * 2 < _; omega)
  | signed width, signed width', h, _, v => by
    have hpow : Nat.pow 2 width ≤ Nat.pow 2 width' := Nat.pow_le_pow_right (by decide) h
    have hcast : ((Nat.pow 2 width : Nat) : Int) = 2 ^ width := rfl
    have hlow := @BitVec.le_two_mul_toInt width v
    have hhigh := @BitVec.two_mul_toInt_lt width v
    rw [← hcast] at hlow hhigh
    exact toInteger_ofInt (by change _ ≤ BitVec.toInt v * 2; omega) (by change BitVec.toInt v * 2 < _; omega)
  | _, floating F, _, hd, _ => absurd rfl (hd F)

end Carrier

namespace Element
variable {s t : ElementType}

/-- A wider type that is reached through doubles keeps a number as it is. -/
theorem toDouble_convert (h : s.carrier.FitsIn t.carrier) (ht : t.isFloat = true) {v : Element s}
    (hnan : s.carrier.isNaN v = false) : t.carrier.toDouble (convert t v) = s.carrier.toDouble v := by
  rw [convert_of_isFloat ht]
  cases t with
  | i1 | i8 | i16 | i32 | i64 => cases ht
  | f16 | bf16 | f32 | f64 => exact Carrier.toDouble_ofDouble_toDouble h hnan

private theorem truncate_toDouble (h : s.carrier.FitsIn (.floating .binary64)) (hs : s.isFloat = false)
    (v : Element s) :
    (s.carrier.toDouble v).truncate 64 = s.carrier.toInteger v := by
  have hkeeps {n : Int} (hn : n.natAbs ≤ Nat.pow 2 53) : (FloatWord.ofInt .binary64 n).truncate 64 = n := by
    have hword : n.natAbs < signedBound := Nat.lt_of_le_of_lt hn (by decide)
    refine (FloatWord.truncate_ofInt_eq_iff (by omega) (by omega)).mpr (Or.inr ?_)
    exact FloatWord.fitsSignificand_of_natAbs_le hn
  cases s with
  | i1 => exact hkeeps (Nat.le_trans (by cases v <;> decide) (Nat.two_pow_pos _))
  | i8 | i16 | i32 | i64 => exact hkeeps (Carrier.natAbs_toInt_le h v)
  | f16 | bf16 | f32 | f64 => cases hs

private theorem isFloat_of_fitsIn (h : s.carrier.FitsIn t.carrier) (hs : s.isFloat = true) : t.isFloat = true := by
  revert h hs
  cases s <;> cases t <;> decide

private theorem fitsIn_f64 (h : s.carrier.FitsIn t.carrier) (ht : t.isFloat = true) :
    s.carrier.FitsIn (.floating .binary64) := by
  revert h ht
  cases s <;> cases t <;> decide

/-- A wider type keeps the integers of a narrower one. -/
theorem toInteger_convert (h : s.carrier.FitsIn t.carrier) (hs : s.isFloat = false) (v : Element s) :
    t.carrier.toInteger (convert t v) = s.carrier.toInteger v := by
  cases ht : t.isFloat with
  | true =>
    have hdouble := toDouble_convert h ht (not_isNaN hs v)
    rw [← truncate_toDouble (fitsIn_f64 h ht) hs v, ← hdouble]
    cases t with
    | i1 | i8 | i16 | i32 | i64 => cases ht
    | f16 | bf16 | f32 | f64 => rfl
  | false =>
    rw [convert_of_not_isFloat ht]
    refine Carrier.toInteger_ofInteger_toInteger h (fun F hF => ?_) v
    cases t <;> cases hF <;> cases ht

/-- The way to a type that holds all values and back changes nothing but the payload of NaNs. -/
theorem sameBits_convert_convert (h : s.carrier.FitsIn t.carrier) (v : Element s) :
    s.carrier.sameBits (convert s (convert t v)) v = true := by
  cases hs : s.isFloat with
  | false =>
    have hback : convert s (convert t v) = convert s v := by
      rw [convert_of_not_isFloat hs, toInteger_convert h hs, convert_of_not_isFloat hs]
    rw [hback]
    exact sameBits_convert_self v
  | true =>
    have ht := isFloat_of_fitsIn h hs
    cases hnan : s.carrier.isNaN v with
    | false =>
      have hback : convert s (convert t v) = convert s v := by
        rw [convert_of_isFloat hs, toDouble_convert h ht hnan, convert_of_isFloat hs]
      rw [hback]
      exact sameBits_convert_self v
    | true => exact Carrier.sameBits_iff.mpr (Or.inr ⟨isNaN_convert hs (isNaN_convert ht hnan), hnan⟩)

/-- An element that only those types keep which hold all values of its type. -/
def hardest : (s : ElementType) → Element s
  | .i1 => true
  | .i8 => 2#8
  | .i16 => 2049#16
  | .i32 => 16777217#32
  | .i64 => 9007199254740993#64
  | .f16 => FloatWord.ofBits .binary16 0x3C01
  | .bf16 => FloatWord.ofBits .bfloat16 1
  | .f32 => FloatWord.ofBits .binary32 1
  | .f64 => FloatWord.ofBits .binary64 1

theorem fitsIn_of_sameBits_hardest (h : s.carrier.sameBits (convert s (convert t (hardest s))) (hardest s) = true) :
    s.carrier.FitsIn t.carrier := by
  revert h
  cases s <;> cases t <;> decide +kernel

/-- The types that hold all values of `i1`, of each integer type and of each floating-point type. -/
example : ElementType.all.map (fun s => ElementType.all.filter fun t => s.carrier.FitsIn t.carrier) =
    [ElementType.all,
      [.i8, .i16, .i32, .i64, .f16, .bf16, .f32, .f64], [.i16, .i32, .i64, .f32, .f64], [.i32, .i64, .f64], [.i64],
      [.f16, .f32, .f64], [.bf16, .f32, .f64], [.f32, .f64], [.f64]] := by
  decide

end Element

end TensorEval
