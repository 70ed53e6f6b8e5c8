import TensorEval.Proofs.Kernel
import TensorEval.Proofs.Tensor.Report

/-! Integers as constants and as inputs. A constant wraps an integer to its type. An input holds doubles, so there the
integer is rounded to a double and clamped to a word with a sign before it is wrapped. -/
namespace TensorEval

namespace Element
variable {type : ElementType} {m n : Int}

private theorem ofInteger_flag_eq_iff :
    ElementType.i1.carrier.ofInteger m = ElementType.i1.carrier.ofInteger n ↔ (m = 0 ↔ n = 0) := by
  change decide (m ≠ 0) = decide (n ≠ 0) ↔ _
  rw [decide_eq_decide, not_iff_not]

private theorem dvd_toInt_ofInt (n : Int) : ((Nat.pow 2 64 : Nat) : Int) ∣ (Int64.ofInt n).toInt - n := by
  rw [Int64.toInt_ofInt]
  exact Int.dvd_of_emod_eq_zero (Int.emod_eq_emod_iff_emod_sub_eq_zero.mp Int.bmod_emod)

private theorem ofInteger_word (htype : type.isFloat = false) (hlow : -(signedBound : Int) ≤ n)
    (hhigh : n < wordBound) :
    type.carrier.ofInteger (Int64.ofInt n).toInt = type.carrier.ofInteger n := by
  have hdvd := dvd_toInt_ofInt n
  by_cases hflag : type = .i1
  · subst hflag
    rw [ofInteger_flag_eq_iff]
    obtain ⟨k, hk⟩ := hdvd
    have hword : ((Nat.pow 2 64 : Nat) : Int) = wordBound := rfl
    rw [hword] at hk
    have hleast := Int64.le_toInt (Int64.ofInt n)
    have hmost := Int64.toInt_lt (Int64.ofInt n)
    unfold signedBound wordBound at *
    omega
  · rw [ofInteger_eq_iff htype hflag]
    exact Int.dvd_trans (by cases type <;> decide) hdvd

end Element

section Routes
variable {type : ElementType} {n : Int}

def integerLiteral (n : Int) (type : ElementType) : String := String.ofList (Text.integer n ++ Attribute.typeSuffix type)

def integerInput (n : Int) (type : ElementType) : Json :=
  .object [("data_type", .string type.name), ("shape", Shape.json []), ("values", .array [.integer n])]

def Tensor.single (v : Element type) : Tensor := ⟨type, [], [v], rfl⟩

private theorem Tensor.sameBits_single_iff (htype : type.isFloat = false) {v w : Element type} :
    (single v).sameBits (single w) = true ↔ v = w := by
  rw [single, single, sameBits_mk_iff rfl rfl, List.forall₂_cons, Carrier.sameBits_iff]
  have hnan : type.carrier.isNaN v = false := by
    cases type with
    | i1 | i8 | i16 | i32 | i64 => rfl
    | f16 | bf16 | f32 | f64 => exact absurd htype.symm Bool.false_ne_true
  simp [hnan]

private theorem ofString_integerLiteral (htype : type.isFloat = false) (hlow : -(signedBound : Int) ≤ n)
    (hhigh : n < wordBound) :
    Attribute.ofString (integerLiteral n type) = .ok (.integer (Int64.ofInt n) type) := by
  rw [Attribute.ofString, integerLiteral, String.toList_ofList]
  apply Attribute.read_typed (Attribute.token_integer n)
  rw [Attribute.readTyped, if_neg (htype ▸ Bool.false_ne_true), Attribute.readInteger,
    Attribute.readInteger?_integer hlow hhigh]
  rfl

example : integerLiteral (-3) .i16 = "-3 : i16" := by decide +kernel

def Attribute.scalar (type : ElementType) : Fill → Attribute
  | .float value => .float value type
  | .integer value => .integer value type

theorem materialize_scalar (fill : Fill) {limit : Nat} (hlimit : type.byteWidth ≤ limit) :
    Kernel.materialize limit (.scalar type fill) = .ok (.single (Element.ofFill type fill)) := by
  have hparts : Kernel.constantParts (.scalar type fill) = .ok ([], type, fill) := by cases fill <;> rfl
  have hsize : checkSize limit [] type = .ok () := checkSize_eq_ok_iff.mpr ⟨type.byteWidth, by cases type <;> rfl, hlimit⟩
  exact Kernel.materialize_eq_ok.mpr ⟨[], type, fill, hparts, hsize, rfl⟩

private theorem materialize_integer (word : Int64) {limit : Nat} (hlimit : type.byteWidth ≤ limit) :
    Kernel.materialize limit (.integer word type) = .ok (.single (type.carrier.ofInteger word.toInt)) :=
  materialize_scalar (.integer word) hlimit

private theorem ofText_integerInput (hlow : -(signedBound : Int) ≤ n) (hhigh : n < wordBound) :
    Input.ofText (integerInput n type).toCompact = .ok ⟨type, [], some [.ofInt .binary64 n], none⟩ := by
  have hvalues : Json.Node.readList Json.Node.readDouble (Json.array ([n].map .integer)).node =
      .ok ([n].map (FloatWord.ofInt .binary64)) := by
    refine Json.readList_node fun m hm => ?_
    obtain rfl := List.mem_singleton.mp hm
    exact Json.readDouble_integer hlow hhigh
  rw [Input.ofText, Json.readText_eq_ok, Json.toCompact, String.toList_ofList, Json.ofText_compact]
  exact ⟨Input.read_members type (fun _ hd => absurd hd List.not_mem_nil) hvalues, rfl⟩

private theorem tensor_integer (name : String) (htype : type.isFloat = false) (x : Double) :
    Input.tensor name ⟨type, [], some [x], none⟩ = .ok (.single (type.carrier.ofInteger (x.truncate 64))) := by
  change Outcome.ofExcept (Tensor.ofNumbers name [] type [x]) = _
  rw [Tensor.ofNumbers_eq_ok name type (by decide) rfl, ← Element.ofNumber_of_not_isFloat htype]
  rfl

/-- An integer is the same tensor as a constant and as an input if it is a truth value, or if its lowest bits are those of
the double next to it, clamped to a word with a sign. -/
theorem integer_sameBits_iff (htype : type.isFloat = false) (hlow : -(signedBound : Int) ≤ n) (hhigh : n < wordBound)
    {limit : Nat} (hlimit : type.byteWidth ≤ limit) (name : String) :
    ∃ a x input y, Attribute.ofString (integerLiteral n type) = .ok a ∧ Kernel.materialize limit a = .ok x ∧
      Input.ofText (integerInput n type).toCompact = .ok input ∧ input.tensor name = .ok y ∧
      (x.sameBits y = true ↔ type = .i1 ∨ ((Nat.pow 2 (8 * type.byteWidth) : Nat) : Int) ∣
        n - (FloatWord.ofInt .binary64 n).truncate 64) := by
  refine ⟨_, _, _, _, ofString_integerLiteral htype hlow hhigh, materialize_integer _ hlimit,
    ofText_integerInput hlow hhigh, tensor_integer name htype _, ?_⟩
  rw [Element.ofInteger_word htype hlow hhigh, Tensor.sameBits_single_iff htype]
  by_cases hflag : type = .i1
  · subst hflag
    have habs : n.natAbs ≤ Nat.pow 2 64 := by
      have hword : Nat.pow 2 64 = wordBound := rfl
      unfold signedBound wordBound at *
      omega
    rw [Element.ofInteger_flag_eq_iff, FloatWord.truncate_ofInt_eq_zero_iff habs]
    simp
  · rw [Element.ofInteger_eq_iff htype hflag]
    simp [hflag]

/-- The greatest word without a sign has no bit but ones in either tensor of bytes. -/
theorem integer_sameBits_greatestWord :
    ∃ a x input y, Attribute.ofString (integerLiteral 18446744073709551615 .i8) = .ok a ∧
      Kernel.materialize defaultLimit a = .ok x ∧
      Input.ofText (integerInput 18446744073709551615 .i8).toCompact = .ok input ∧ input.tensor "x" = .ok y ∧
      x.sameBits y = true := by
  obtain ⟨a, x, input, y, ha, hx, hinput, hy, hbits⟩ := integer_sameBits_iff (n := 18446744073709551615)
    (show ElementType.i8.isFloat = false from rfl) (by decide) (by decide) (show 1 ≤ defaultLimit by decide) "x"
  exact ⟨a, x, input, y, ha, hx, hinput, hy, hbits.mpr (Or.inr (by decide +kernel))⟩

/-- An integer that is between two doubles, and the least one that is no word with a sign. -/
theorem integer_not_sameBits :
    (∃ a x input y, Attribute.ofString (integerLiteral 9007199254740993 .i64) = .ok a ∧
      Kernel.materialize defaultLimit a = .ok x ∧
      Input.ofText (integerInput 9007199254740993 .i64).toCompact = .ok input ∧ input.tensor "x" = .ok y ∧
      x.sameBits y = false) ∧
    ∃ a x input y, Attribute.ofString (integerLiteral 9223372036854775808 .i64) = .ok a ∧
      Kernel.materialize defaultLimit a = .ok x ∧
      Input.ofText (integerInput 9223372036854775808 .i64).toCompact = .ok input ∧ input.tensor "x" = .ok y ∧
      x.sameBits y = false := by
  constructor
  all_goals
    refine ⟨_, _, _, _, ofString_integerLiteral rfl (by decide) (by decide), materialize_integer _ (by decide),
      ofText_integerInput (by decide) (by decide), tensor_integer "x" rfl _, by decide +kernel⟩

end Routes

end TensorEval
