import TensorEval.Float.Rounding
/-!
Decimal numbers and doubles: the double nearest to a decimal, and the decimal with the fewest
digits that reads back as a given double.
-/
namespace TensorEval

/-- The number `digits · 10 ^ exponent`. -/
structure Decimal where
  digits : Nat
  exponent : Int
  deriving DecidableEq, Repr

/-- Which of two equally near decimals is taken: the one with the even last digit, or the
larger one. -/
inductive TieRule where
  | toEven | upward
  deriving DecidableEq, Repr

namespace Decimal

/-- Numerator and denominator of a decimal as a multiple of the least positive value of `F`. -/
def ratio (F : FloatFormat) (d : Decimal) : Nat × Nat :=
  (d.digits * Nat.pow 10 d.exponent.toNat * Nat.pow 2 F.scale, Nat.pow 10 (-d.exponent).toNat)

/-- Powers of ten from here on exceed every double, and their inverses stay below the least
positive one by more than half. -/
def hugeExponent : Nat := 400

/-- The magnitude word of the double nearest to a decimal. Far outside the range of doubles the
answer is known without the powers. -/
def magnitude (d : Decimal) : Nat :=
  if d.digits = 0 then 0
  else if hugeExponent ≤ d.exponent then FloatFormat.binary64.infinity
  else if d.exponent + (d.digits.log2 + 1) ≤ -hugeExponent then 0
  else
    let (num, den) := d.ratio .binary64
    FloatFormat.binary64.roundMagnitude num den

theorem magnitude_lt (d : Decimal) : d.magnitude < FloatFormat.binary64.magnitudeBound := by
  unfold magnitude
  split
  · decide
  split
  · decide
  split
  · decide
  · exact FloatFormat.roundMagnitude_lt _ _ _

def toDouble (negative : Bool) (d : Decimal) : Double :=
  ⟨negative, d.magnitude, d.magnitude_lt⟩

/-- Whether the multiple above is taken when both neighbours read back: `digits` counts the one
below, and the value lies `twice / (2 * den)` of a step above it. -/
def takesAbove (rule : TieRule) (digits twice den : Nat) : Bool :=
  den < twice || (twice = den && match rule with
    | .toEven => digits % 2 = 1
    | .upward => true)

/-- Of the two multiples of `10 ^ exponent` around `num / den` steps, one that reads back as the
magnitude word `m`, the nearer one if both do. -/
def nearestOnGrid (rule : TieRule) (m num den : Nat) (exponent : Int) : Option Decimal :=
  let below : Decimal := ⟨num / den, exponent⟩
  let above : Decimal := ⟨num / den + 1, exponent⟩
  if below.magnitude = m then
    if above.magnitude = m ∧ takesAbove rule below.digits (2 * (num % den)) den then some above
    else some below
  else if above.magnitude = m then some above
  else none

def steps (units : Nat) (exponent : Int) : Nat × Nat :=
  (units * Nat.pow 10 (-exponent).toNat,
    Nat.pow 2 FloatFormat.binary64.scale * Nat.pow 10 exponent.toNat)

/-- The first grid, from `10 ^ exponent` down to finer ones, with a neighbour that reads back.
The finest grid holds the value itself. -/
def searchFrom (rule : TieRule) (m units : Nat) : Nat → Int → Decimal
  | 0, exponent =>
    let (num, den) := steps units exponent
    ⟨num / den, exponent⟩
  | finer + 1, exponent =>
    let (num, den) := steps units exponent
    match nearestOnGrid rule m num den exponent with
    | some d => d
    | none => searchFrom rule m units finer (exponent - 1)

/-- A power of ten above the value `units`: `0.30103` is just above the logarithm of two. -/
def startExponent (units : Nat) : Int :=
  ((units.log2 + 1 - FloatFormat.binary64.scale : Int) * 30103).fdiv 100000 + 2

/-- The decimal with the fewest digits that reads back as the finite double `x`, and among those
the nearest to it. -/
def shortest (rule : TieRule) (x : Double) : Decimal :=
  let start := startExponent x.units
  searchFrom rule x.magnitude x.units (start + FloatFormat.binary64.scale).toNat start

end Decimal
end TensorEval
