import TensorEval.Float.Rounding
/-!
Arithmetic and comparison of floating-point numbers. Each operation computes the exact result and
rounds it once; a NaN operand gives the quiet NaN.
-/
namespace TensorEval.FloatWord

variable {F : FloatFormat}

/-- The rounded sum. An exact zero is negative only if both operands are. -/
def add (x y : FloatWord F) : FloatWord F :=
  if x.isNaN || y.isNaN then nan F
  else if x.isInfinite then
    if y.isInfinite && x.negative != y.negative then nan F else x
  else if y.isInfinite then y
  else
    let sum := x.value + y.value
    round F (if sum = 0 then x.negative && y.negative else sum < 0) sum.natAbs 1

def mul (x y : FloatWord F) : FloatWord F :=
  let negative := x.negative != y.negative
  if x.isNaN || y.isNaN then nan F
  else if x.isInfinite || y.isInfinite then
    if x.isZero || y.isZero then nan F else infinite F negative
  else round F negative (x.units * y.units) (Nat.pow 2 F.scale)

def div (x y : FloatWord F) : FloatWord F :=
  let negative := x.negative != y.negative
  if x.isNaN || y.isNaN then nan F
  else if x.isInfinite then
    if y.isInfinite then nan F else infinite F negative
  else if y.isInfinite then zero F negative
  else if y.isZero then
    if x.isZero then nan F else infinite F negative
  else round F negative (x.units * Nat.pow 2 F.scale) y.units

/-- Whether `x` is a number and at most the number `y`. Zeros of both signs are equal. -/
def le (x y : FloatWord F) : Bool := !x.isNaN && !y.isNaN && x.value ≤ y.value

def equals (x y : FloatWord F) : Bool := !x.isNaN && !y.isNaN && x.value = y.value

/-- The larger number, the first one of two equal ones. A NaN wins. -/
def maximum (x y : FloatWord F) : FloatWord F :=
  if x.isNaN || y.isNaN then nan F else if y.le x then x else y

def minimum (x y : FloatWord F) : FloatWord F :=
  if x.isNaN || y.isNaN then nan F else if x.le y then x else y

end TensorEval.FloatWord
