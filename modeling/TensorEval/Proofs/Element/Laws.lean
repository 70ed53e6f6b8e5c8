import TensorEval.Proofs.Element

/-! Laws of the elementwise operators. The sum and the product are the same in either order of the operands, for elements
of every type. Maximum and minimum choose an operand, the first one of two that are equally large, and a choice may be made
in any grouping. For elements that are no floating-point numbers all operators are commutative and associative, the product
distributes over the sum, and maximum and minimum over each other. Integers may be narrowed before they are added or
multiplied. -/
namespace TensorEval

def Operator.onIntegers : Operator → Int → Int → Int
  | .mul, m, n => m * n
  | .add, m, n => m + n
  | .max, m, n => Max.max m n
  | .min, m, n => Min.min m n

namespace Carrier

private theorem combineFloats_swap {op : Operator} (hop : op = .add ∨ op = .mul) {F : FloatFormat} (x y : FloatWord F) :
    combineFloats op x y = combineFloats op y x := by
  rcases hop with rfl | rfl
  · exact FloatWord.add_comm x y
  · exact FloatWord.mul_comm x y

/-- The sum and the product do not depend on the order of the operands. -/
theorem combine_swap {op : Operator} (hop : op = .add ∨ op = .mul) : ∀ {c : Carrier} (v w : c.Value),
    c.combine op v w = c.combine op w v
  | flag, v, w => by
    rcases hop with rfl | rfl
    · exact Bool.or_comm v w
    · exact Bool.and_comm v w
  | signed _, v, w => by
    rcases hop with rfl | rfl
    · exact BitVec.add_comm v w
    · exact BitVec.mul_comm v w
  | floating .binary64, v, w => combineFloats_swap hop v w
  | floating .binary32, v, w => combineFloats_swap hop v w
  | floating .binary16, _, _ => congrArg (FloatWord.convert .binary16) (combineFloats_swap hop _ _)
  | floating .bfloat16, _, _ => congrArg (FloatWord.convert .bfloat16) (combineFloats_swap hop _ _)

section Choice
variable {op : Operator} {c : Carrier} {v w : c.Value}

/-- The value of an element that is no NaN. Numbers of floating-point formats are counted in multiples of the least
positive one. -/
def number : (c : Carrier) → c.Value → Int
  | flag, b => b.toInt
  | signed _, n => n.toInt
  | floating _, x => x.value

/-- What a maximum or a minimum looks for: the value, or for a minimum its negative. -/
def preference (op : Operator) (c : Carrier) (v : c.Value) : Int :=
  match op with
  | .min => -c.number v
  | _ => c.number v

section Floats
variable {F : FloatFormat} {x y : FloatWord F}

private theorem combineFloats_eq_ite (hop : op = .max ∨ op = .min) (hx : x.isNaN = false) (hy : y.isNaN = false) :
    combineFloats op x y = if preference op (floating F) y ≤ preference op (floating F) x then x else y := by
  rcases hop with rfl | rfl
  · exact FloatWord.maximum_of_numbers hx hy
  · apply (FloatWord.minimum_of_numbers hx hy).trans
    simp [preference, number]

private theorem convert_combineFloats_eq_ite {G : FloatFormat} (h : F.Within G) (hop : op = .max ∨ op = .min)
    (hx : x.isNaN = false) (hy : y.isNaN = false) : (combineFloats op (x.convert G) (y.convert G)).convert F =
      if preference op (floating F) y ≤ preference op (floating F) x then x else y := by
  have hiff : preference op (floating G) (y.convert G) ≤ preference op (floating G) (x.convert G) ↔
      preference op (floating F) y ≤ preference op (floating F) x := by
    rcases hop with rfl | rfl
    · exact FloatWord.value_convert_le_iff h hy hx
    · simpa [preference, number] using FloatWord.value_convert_le_iff h hx hy
  rw [combineFloats_eq_ite hop (FloatWord.not_isNaN_convert G hx) (FloatWord.not_isNaN_convert G hy),
    apply_ite (FloatWord.convert F), FloatWord.convert_convert_self h hx, FloatWord.convert_convert_self h hy]
  simp only [hiff]

end Floats

/-- Of two elements that are no NaN the preferred one is taken, the first one if neither is preferred. -/
theorem combine_eq_ite (hop : op = .max ∨ op = .min) (hv : c.isNaN v = false) (hw : c.isNaN w = false) :
    c.combine op v w = if c.preference op w ≤ c.preference op v then v else w := by
  cases c with
  | flag => rcases hop with rfl | rfl <;> cases v <;> cases w <;> rfl
  | signed width =>
    rcases hop with rfl | rfl
    · have hslt : BitVec.slt v w = true ↔ ¬BitVec.toInt w ≤ BitVec.toInt v :=
        BitVec.slt_iff_toInt_lt.trans Int.not_le.symm
      simp only [combine, hslt, ite_not]
      rfl
    · have hslt : BitVec.slt w v = true ↔ ¬-BitVec.toInt w ≤ -BitVec.toInt v := by
        rw [BitVec.slt_iff_toInt_lt]
        omega
      simp only [combine, hslt, ite_not]
      rfl
  | floating F =>
    cases F with
    | binary64 | binary32 => exact combineFloats_eq_ite hop hv hw
    | binary16 | bfloat16 => exact convert_combineFloats_eq_ite (by decide) hop hv hw

theorem isNaN_combine (hop : op = .max ∨ op = .min) :
    c.isNaN (c.combine op v w) = true ↔ c.isNaN v = true ∨ c.isNaN w = true := by
  by_cases h : c.isNaN v = true ∨ c.isNaN w = true
  · refine iff_of_true ?_ h
    cases c with
    | flag | signed width => exact h.elim id id
    | floating F =>
      rw [combine_of_isNaN op h]
      cases F <;> rfl
  · refine iff_of_false ?_ h
    obtain ⟨hv, hw⟩ : c.isNaN v = false ∧ c.isNaN w = false := by simpa using h
    rw [combine_eq_ite hop hv hw]
    split <;> simp [hv, hw]

private theorem choice_assoc {α : Type} (key : α → Int) (u v w : α) :
    (let first := if key v ≤ key u then u else v
      if key w ≤ key first then first else w) =
    let last := if key w ≤ key v then v else w
    if key last ≤ key u then u else last := by
  by_cases hvu : key v ≤ key u <;> by_cases hwv : key w ≤ key v <;> by_cases hwu : key w ≤ key u <;>
    simp [hvu, hwv, hwu] <;> omega

/-- A maximum or a minimum of three elements is the same in both groupings. -/
theorem combine_assoc_of_choice (hop : op = .max ∨ op = .min) (u v w : c.Value) :
    c.combine op (c.combine op u v) w = c.combine op u (c.combine op v w) := by
  by_cases h : c.isNaN u = true ∨ c.isNaN v = true ∨ c.isNaN w = true
  · cases c with
    | flag | signed width => exact absurd h (by simp [isNaN])
    | floating F =>
      -- A NaN stays one in both groupings.
      have hleft : (floating F).isNaN ((floating F).combine op u v) = true ∨ (floating F).isNaN w = true :=
        (or_assoc.mpr h).imp_left (isNaN_combine hop).mpr
      have hright : (floating F).isNaN u = true ∨ (floating F).isNaN ((floating F).combine op v w) = true :=
        h.imp_right (isNaN_combine hop).mpr
      rw [combine_of_isNaN op hleft, combine_of_isNaN op hright]
  · simp only [not_or, Bool.not_eq_true] at h
    obtain ⟨hu, hv, hw⟩ := h
    have hfirst : c.isNaN (c.combine op u v) = false := by simp [← Bool.not_eq_true, isNaN_combine hop, hu, hv]
    have hlast : c.isNaN (c.combine op v w) = false := by simp [← Bool.not_eq_true, isNaN_combine hop, hv, hw]
    rw [combine_eq_ite hop hfirst hw, combine_eq_ite hop hu hlast, combine_eq_ite hop hu hv, combine_eq_ite hop hv hw]
    exact choice_assoc (c.preference op) u v w

end Choice

end Carrier

namespace Element

section Integers
variable {type : ElementType} (htype : type.isFloat = false)
include htype

private theorem not_oppositeZeros (v w : Element type) : ¬type.carrier.OppositeZeros v w := by
  cases type with
  | i1 | i8 | i16 | i32 | i64 => exact id
  | f16 | bf16 | f32 | f64 => exact absurd htype.symm Bool.false_ne_true

private theorem eq_of_number_eq {v w : Element type} (h : type.carrier.number v = type.carrier.number w) : v = w := by
  cases type with
  | i1 =>
    have hbool : ∀ a b : Bool, a.toInt = b.toInt → a = b := by decide
    exact hbool v w h
  | i8 | i16 | i32 | i64 => exact BitVec.eq_of_toInt_eq h
  | f16 | bf16 | f32 | f64 => exact absurd htype.symm Bool.false_ne_true

private theorem number_combine {op : Operator} (hop : op = .max ∨ op = .min) (v w : Element type) :
    type.carrier.number (type.carrier.combine op v w) = op.onIntegers (type.carrier.number v) (type.carrier.number w) := by
  rw [Carrier.combine_eq_ite hop (not_isNaN htype v) (not_isNaN htype w)]
  rcases hop with rfl | rfl <;> unfold Carrier.preference Operator.onIntegers <;> dsimp only <;> split <;> omega

theorem combine_comm (op : Operator) (v w : Element type) : type.carrier.combine op v w = type.carrier.combine op w v := by
  cases op with
  | add => exact Carrier.combine_swap (Or.inl rfl) v w
  | mul => exact Carrier.combine_swap (Or.inr rfl) v w
  | max => exact Carrier.combine_comm (Or.inl rfl) (not_oppositeZeros htype v w)
  | min => exact Carrier.combine_comm (Or.inr rfl) (not_oppositeZeros htype v w)

theorem combine_assoc (op : Operator) (u v w : Element type) :
    type.carrier.combine op (type.carrier.combine op u v) w = type.carrier.combine op u (type.carrier.combine op v w) := by
  cases op with
  | max => exact Carrier.combine_assoc_of_choice (Or.inl rfl) u v w
  | min => exact Carrier.combine_assoc_of_choice (Or.inr rfl) u v w
  | add =>
    cases type with
    | i1 => exact Bool.or_assoc u v w
    | i8 | i16 | i32 | i64 => exact BitVec.add_assoc u v w
    | f16 | bf16 | f32 | f64 => exact absurd htype.symm Bool.false_ne_true
  | mul =>
    cases type with
    | i1 => exact Bool.and_assoc u v w
    | i8 | i16 | i32 | i64 => exact BitVec.mul_assoc u v w
    | f16 | bf16 | f32 | f64 => exact absurd htype.symm Bool.false_ne_true

theorem combine_mul_add (u v w : Element type) :
    type.carrier.combine .mul u (type.carrier.combine .add v w) =
      type.carrier.combine .add (type.carrier.combine .mul u v) (type.carrier.combine .mul u w) := by
  cases type with
  | i1 => exact Bool.and_or_distrib_left u v w
  | i8 | i16 | i32 | i64 => exact BitVec.mul_add
  | f16 | bf16 | f32 | f64 => exact absurd htype.symm Bool.false_ne_true

/-- The maximum distributes over the minimum, and the minimum over the maximum. -/
theorem combine_distrib_of_choice {op inner : Operator} (hop : op = .max ∨ op = .min)
    (hinner : inner = .max ∨ inner = .min) (u v w : Element type) : type.carrier.combine op u (type.carrier.combine inner v w) =
      type.carrier.combine inner (type.carrier.combine op u v) (type.carrier.combine op u w) := by
  apply eq_of_number_eq htype
  simp only [number_combine htype hop, number_combine htype hinner]
  rcases hop with rfl | rfl <;> rcases hinner with rfl | rfl <;> simp only [Operator.onIntegers] <;> omega

end Integers

section Narrowing
variable {s t : ElementType} {op : Operator}

private theorem not_isFloat_of_integer (ht : t.category = .integer) : t.isFloat = false := by
  rw [ElementType.isFloat, ht]
  rfl

theorem ofInteger_toInteger (ht : t.category = .integer) (v : Element t) :
    t.carrier.ofInteger (t.carrier.toInteger v) = v := by
  cases t with
  | i8 | i16 | i32 | i64 => exact BitVec.ofInt_toInt
  | i1 | f16 | bf16 | f32 | f64 => cases ht

private theorem dvd_toInteger_ofInteger (ht : t.category = .integer) (n : Int) :
    ((Nat.pow 2 (8 * t.byteWidth) : Nat) : Int) ∣ t.carrier.toInteger (t.carrier.ofInteger n) - n := by
  have hword (width : Nat) : ((Nat.pow 2 width : Nat) : Int) ∣ (BitVec.ofInt width n).toInt - n := by
    rw [BitVec.toInt_ofInt]
    exact Int.dvd_bmod_sub_self
  cases t with
  | i8 | i16 | i32 | i64 => exact hword _
  | i1 | f16 | bf16 | f32 | f64 => cases ht

private theorem combine_ofInteger (ht : t.category = .integer) (hop : op = .add ∨ op = .mul) (m n : Int) :
    t.carrier.combine op (t.carrier.ofInteger m) (t.carrier.ofInteger n) = t.carrier.ofInteger (op.onIntegers m n) := by
  cases t with
  | i8 | i16 | i32 | i64 =>
    rcases hop with rfl | rfl
    · exact (BitVec.ofInt_add m n).symm
    · exact (BitVec.ofInt_mul m n).symm
  | i1 | f16 | bf16 | f32 | f64 => cases ht

private theorem ofInteger_toInteger_ofInteger (hs : s.category = .integer) (ht : t.category = .integer)
    (hwidth : t.byteWidth ≤ s.byteWidth) (n : Int) :
    t.carrier.ofInteger (s.carrier.toInteger (s.carrier.ofInteger n)) = t.carrier.ofInteger n := by
  have hflag : t ≠ .i1 := by
    rintro rfl
    cases ht
  have hpow : ((Nat.pow 2 (8 * t.byteWidth) : Nat) : Int) ∣ ((Nat.pow 2 (8 * s.byteWidth) : Nat) : Int) :=
    Int.natCast_dvd_natCast.mpr (Nat.pow_dvd_pow 2 (Nat.mul_le_mul_left 8 hwidth))
  rw [ofInteger_eq_iff (not_isFloat_of_integer ht) hflag]
  exact Int.dvd_trans hpow (dvd_toInteger_ofInteger hs n)

/-- The way to an integer type may lead through a wider one. -/
theorem convert_convert {r : ElementType} (hs : s.category = .integer) (ht : t.category = .integer)
    (hwidth : t.byteWidth ≤ s.byteWidth) (v : Element r) : convert t (convert s v) = convert t v := by
  rw [convert_of_not_isFloat (not_isFloat_of_integer ht), convert_of_not_isFloat (not_isFloat_of_integer hs),
    ofInteger_toInteger_ofInteger hs ht hwidth, convert_of_not_isFloat (not_isFloat_of_integer ht)]

/-- Narrowing a sum or a product is adding or multiplying what has been narrowed. -/
theorem convert_combine (hs : s.category = .integer) (ht : t.category = .integer) (hwidth : t.byteWidth ≤ s.byteWidth)
    (hop : op = .add ∨ op = .mul) (v w : Element s) :
    convert t (s.carrier.combine op v w) = t.carrier.combine op (convert t v) (convert t w) := by
  have hcombine : s.carrier.combine op v w =
      s.carrier.ofInteger (op.onIntegers (s.carrier.toInteger v) (s.carrier.toInteger w)) := by
    rw [← combine_ofInteger hs hop, ofInteger_toInteger hs, ofInteger_toInteger hs]
  simp only [convert_of_not_isFloat (not_isFloat_of_integer ht)]
  rw [hcombine, ofInteger_toInteger_ofInteger hs ht hwidth, combine_ofInteger ht hop]

end Narrowing

end Element

end TensorEval
