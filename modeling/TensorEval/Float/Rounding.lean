import TensorEval.Float.Format
/-!
Rounding of exact ratios to the nearest number of a format, ties to the even neighbour, and the
conversions between formats that it gives.
-/
namespace TensorEval

/-- The quotient of `num` by a positive `den`, rounded to the nearest integer, a half to the even
neighbour. -/
def divNearestEven (num den : Nat) : Nat :=
  let q := num / den
  let r := num % den
  if 2 * r < den then q
  else if den < 2 * r then q + 1
  else q + q % 2

namespace FloatFormat

/-- The magnitude word nearest to `num / den` multiples of the least positive value. Below `shift`
doublings of that value a result keeps all its bits; the word grows by one exponent step for each
doubling, and a carry out of the fraction moves it to the next exponent by itself. -/
def roundMagnitude (F : FloatFormat) (num den : Nat) : Nat :=
  let shift := (num / den).log2 - F.fractionBits
  min (shift * Nat.pow 2 F.fractionBits + divNearestEven num (den * Nat.pow 2 shift)) F.infinity

theorem roundMagnitude_lt (F : FloatFormat) (num den : Nat) :
    F.roundMagnitude num den < F.magnitudeBound :=
  Nat.lt_of_le_of_lt (Nat.min_le_right _ _) F.infinity_lt

/-- The fraction field of a NaN carried over from format `F` to `G`: the leading bits stay, and
the quiet bit is set. -/
def carryPayload (F G : FloatFormat) (payload : Nat) : Nat :=
  let moved := payload * Nat.pow 2 G.fractionBits / Nat.pow 2 F.fractionBits %
    Nat.pow 2 G.fractionBits
  if moved < G.quietBit then moved + G.quietBit else moved

private theorem infinity_add_carryPayload_lt (F G : FloatFormat) (payload : Nat) :
    G.infinity + F.carryPayload G payload < G.magnitudeBound := by
  have hmod : payload * Nat.pow 2 G.fractionBits / Nat.pow 2 F.fractionBits %
      Nat.pow 2 G.fractionBits < Nat.pow 2 G.fractionBits := Nat.mod_lt _ (Nat.two_pow_pos _)
  have hq : G.quietBit + G.quietBit = Nat.pow 2 G.fractionBits := by cases G <;> decide
  have := G.infinity_add_two_pow
  unfold carryPayload
  dsimp only
  split <;> omega

end FloatFormat

namespace FloatWord

variable {F : FloatFormat}

def round (F : FloatFormat) (negative : Bool) (num den : Nat) : FloatWord F :=
  ⟨negative, F.roundMagnitude num den, F.roundMagnitude_lt num den⟩

def ofInt (F : FloatFormat) (n : Int) : FloatWord F :=
  round F (n < 0) (n.natAbs * Nat.pow 2 F.scale) 1

def convert (G : FloatFormat) (x : FloatWord F) : FloatWord G :=
  if x.isNaN then
    ⟨x.negative, G.infinity + F.carryPayload G (x.magnitude - F.infinity),
      F.infinity_add_carryPayload_lt G _⟩
  else if x.isInfinite then infinite G x.negative
  else round G x.negative (x.units * Nat.pow 2 G.scale) (Nat.pow 2 F.scale)

/-- A double with the lower half of its bits cleared. A NaN stays one. -/
def clearLowHalf (x : Double) : Double :=
  if x.isNaN then x
  else ⟨x.negative, x.magnitude / 0x100000000 * 0x100000000,
    Nat.lt_of_le_of_lt (Nat.div_mul_le_self _ _) x.magnitude_lt⟩

/-- A double brought to an element format. Half precision is reached through single precision, and
`bfloat16` looks at the upper half of the double only, so both can differ from the nearest
number. -/
def narrow : (F : FloatFormat) → Double → FloatWord F
  | .binary64, x => x
  | .binary32, x => x.convert .binary32
  | .binary16, x => (x.convert .binary32).convert .binary16
  | .bfloat16, x => x.clearLowHalf.convert .bfloat16

/-- A number of an element format as a double, which holds it exactly. -/
def widen : {F : FloatFormat} → FloatWord F → Double
  | .binary64, x => x
  | .binary32, x => x.convert .binary64
  | .binary16, x => x.convert .binary64
  | .bfloat16, x => x.convert .binary64

/-- The value without its fractional part, clamped to the integers of `width` bits in two's
complement. A NaN gives zero. -/
def truncate (width : Nat) (x : FloatWord F) : Int :=
  if x.isNaN then 0
  else
    let bound : Int := Nat.pow 2 (width - 1)
    max (-bound) (min (x.value.tdiv (Nat.pow 2 F.scale)) (bound - 1))

end FloatWord

end TensorEval
