/-!
Binary floating-point formats. A number is a sign and a magnitude word; the magnitude words of a
format are ordered as the values they stand for, and every finite value is a whole number of the
format's least positive value.
-/
namespace TensorEval

inductive FloatFormat where
  | binary16 | bfloat16 | binary32 | binary64
  deriving DecidableEq, Repr

namespace FloatFormat

def exponentBits : FloatFormat → Nat
  | binary16 => 5
  | bfloat16 => 8
  | binary32 => 8
  | binary64 => 11

def fractionBits : FloatFormat → Nat
  | binary16 => 10
  | bfloat16 => 7
  | binary32 => 23
  | binary64 => 52

/-- The least positive value of the format is `2 ^ -scale`. -/
def scale (F : FloatFormat) : Nat :=
  Nat.pow 2 (F.exponentBits - 1) + F.fractionBits - 2

def magnitudeBound (F : FloatFormat) : Nat := Nat.pow 2 (F.exponentBits + F.fractionBits)

/-- The magnitude word of infinity. Larger words are not numbers. -/
def infinity (F : FloatFormat) : Nat :=
  (Nat.pow 2 F.exponentBits - 1) * Nat.pow 2 F.fractionBits

def quietBit (F : FloatFormat) : Nat := Nat.pow 2 (F.fractionBits - 1)

private theorem infinity_add_quietBit_lt (F : FloatFormat) :
    F.infinity + F.quietBit < F.magnitudeBound := by
  cases F <;> decide

theorem infinity_lt (F : FloatFormat) : F.infinity < F.magnitudeBound := by
  cases F <;> decide

theorem infinity_add_two_pow (F : FloatFormat) :
    F.infinity + Nat.pow 2 F.fractionBits = F.magnitudeBound := by
  cases F <;> decide

/-- The value of a magnitude word as a multiple of the least positive value. Infinity counts as
the power of two that follows the largest finite value. -/
def units (F : FloatFormat) (magnitude : Nat) : Nat :=
  let field := magnitude / Nat.pow 2 F.fractionBits
  let fraction := magnitude % Nat.pow 2 F.fractionBits
  if field = 0 then fraction else (Nat.pow 2 F.fractionBits + fraction) * Nat.pow 2 (field - 1)

end FloatFormat

structure FloatWord (F : FloatFormat) where
  negative : Bool
  magnitude : Nat
  magnitude_lt : magnitude < F.magnitudeBound
  deriving DecidableEq

/-- Double precision, the format in which literals are kept. -/
abbrev Double := FloatWord .binary64

namespace FloatWord

variable {F : FloatFormat}

/-- The number with the given bits: the sign above the magnitude word. Higher bits are dropped. -/
def ofBits (F : FloatFormat) (bits : Nat) : FloatWord F where
  negative := bits / F.magnitudeBound % 2 = 1
  magnitude := bits % F.magnitudeBound
  magnitude_lt := Nat.mod_lt _ (Nat.two_pow_pos _)

def bits (x : FloatWord F) : Nat :=
  (if x.negative then F.magnitudeBound else 0) + x.magnitude

def isNaN (x : FloatWord F) : Bool := F.infinity < x.magnitude
def isInfinite (x : FloatWord F) : Bool := x.magnitude = F.infinity
def isFinite (x : FloatWord F) : Bool := x.magnitude < F.infinity
def isZero (x : FloatWord F) : Bool := x.magnitude = 0

def units (x : FloatWord F) : Nat := F.units x.magnitude

/-- The signed value in multiples of the least positive value. -/
def value (x : FloatWord F) : Int := if x.negative then -(x.units : Int) else x.units

def zero (F : FloatFormat) (negative : Bool) : FloatWord F :=
  ⟨negative, 0, Nat.two_pow_pos _⟩

def infinite (F : FloatFormat) (negative : Bool) : FloatWord F :=
  ⟨negative, F.infinity, F.infinity_lt⟩

/-- The quiet NaN without a payload. -/
def nan (F : FloatFormat) : FloatWord F :=
  ⟨false, F.infinity + F.quietBit, F.infinity_add_quietBit_lt⟩

theorem bits_lt (x : FloatWord F) : x.bits < 2 * F.magnitudeBound := by
  have hlt := x.magnitude_lt
  unfold bits
  split <;> omega

theorem bits_ofBits {n : Nat} (h : n < 2 * F.magnitudeBound) : (ofBits F n).bits = n := by
  have hpos : 0 < F.magnitudeBound := Nat.two_pow_pos _
  simp only [bits, ofBits, decide_eq_true_eq]
  by_cases hn : n < F.magnitudeBound
  · simp [Nat.div_eq_of_lt hn, Nat.mod_eq_of_lt hn]
  · have hq : n / F.magnitudeBound = 1 := by
      apply Nat.div_eq_of_lt_le <;> omega
    have := Nat.div_add_mod n F.magnitudeBound
    simp only [hq] at this ⊢
    simp; omega

theorem ofBits_bits (x : FloatWord F) : ofBits F x.bits = x := by
  have hpos : 0 < F.magnitudeBound := Nat.two_pow_pos _
  have hlt := x.magnitude_lt
  cases x with
  | mk negative magnitude _ =>
    cases negative <;>
      simp_all [bits, ofBits, Nat.div_eq_of_lt, Nat.mod_eq_of_lt, Nat.add_div_left,
        Nat.add_mod_left]

theorem bits_inj {x y : FloatWord F} : x.bits = y.bits ↔ x = y := by
  refine ⟨fun h => ?_, congrArg bits⟩
  rw [← ofBits_bits x, h, ofBits_bits]

end FloatWord

end TensorEval
