import TensorEval.Float.Arithmetic
import TensorEval.Float.Text
import TensorEval.Json.Leaf
import TensorEval.Word
/-!
JSON numbers: their grammar, and the integer or the double that a numeral stands for.
-/
namespace TensorEval.Json

inductive Number where
  | unsigned (value : Nat)
  | negative (value : Int)
  | float (value : Double)
  deriving DecidableEq

def Number.toDouble : Number → Double
  | unsigned n => .ofInt .binary64 n
  | negative n => .ofInt .binary64 n
  | float x => x

structure Numeral where
  negative : Bool
  whole : List Char
  /-- The digits after the point, if there is a point. -/
  fraction : Option (List Char)
  /-- Whether the exponent is negative and its digits, if there is an exponent. -/
  exponent : Option (Bool × List Char)
  deriving DecidableEq, Repr

namespace Numeral

def digitFault (rest : List Char) : Refusal := if rest = [] then .truncated else .malformed

def splitDigits (cs : List Char) : Except Refusal (List Char × List Char) :=
  match cs.takeWhile Char.isDigit with
  | [] => .error (digitFault cs)
  | ds => .ok (ds, cs.dropWhile Char.isDigit)

/-- The digits before the point: no zero in front of others. -/
def splitWhole (cs : List Char) : Except Refusal (List Char × List Char) := do
  let (ds, rest) ← splitDigits cs
  match ds with
  | '0' :: _ :: _ => throw .malformed
  | _ => return (ds, rest)

def splitFraction : List Char → Except Refusal (Option (List Char) × List Char)
  | '.' :: cs => do
    let (ds, rest) ← splitDigits cs
    return (some ds, rest)
  | cs => .ok (none, cs)

def splitSign : List Char → Bool × List Char
  | '-' :: cs => (true, cs)
  | '+' :: cs => (false, cs)
  | cs => (false, cs)

def splitExponent : List Char → Except Refusal (Option (Bool × List Char) × List Char)
  | [] => .ok (none, [])
  | c :: cs =>
    if c = 'e' ∨ c = 'E' then do
      let (negative, cs) := splitSign cs
      let (ds, rest) ← splitDigits cs
      return (some (negative, ds), rest)
    else .ok (none, c :: cs)

def split (cs : List Char) : Except Refusal (Numeral × List Char) := do
  let (negative, cs) := match cs with
    | '-' :: cs => (true, cs)
    | cs => (false, cs)
  let (whole, cs) ← splitWhole cs
  let (fraction, cs) ← splitFraction cs
  let (exponent, cs) ← splitExponent cs
  return (⟨negative, whole, fraction, exponent⟩, cs)

/-- The significand that collects digits as long as it fits a word, and the number of digits left
over from the first one that does not fit. -/
def gather (significand : Nat) : List Char → Nat × Nat
  | [] => (significand, 0)
  | d :: ds =>
    let next := 10 * significand + (d.toNat - '0'.toNat)
    if next < wordBound then gather next ds else (significand, ds.length + 1)

def power (exponent : Nat) : Double := Decimal.toDouble false ⟨1, exponent⟩

/-- The largest power of ten that a double comes near. -/
def mostPower : Nat := 308

/-- A significand scaled by a power of ten with one or two rounded operations, unless it leaves the
range of doubles upward. -/
def scaled (significand : Nat) (exponent : Int) : Option Double :=
  let x := FloatWord.ofInt .binary64 significand
  if 0 ≤ exponent then
    if mostPower < exponent then
      if significand = 0 then some x else none
    else
      let product := x.mul (power exponent.toNat)
      if product.isInfinite then none else some product
  else
    let below := (-exponent).toNat
    if below ≤ mostPower then some (x.div (power below))
    else if below ≤ 2 * mostPower then
      some ((x.div (power mostPower)).div (power (below - mostPower)))
    else some (.zero .binary64 false)

def signed (negative : Bool) (x : Double) : Double := { x with negative }

/-- The value of a numeral. Without point and exponent it is an integer if a signed or an unsigned
word holds it and it is not a negative zero; every other numeral is a double. There is no value out
of the range of doubles. -/
def number (n : Numeral) : Option Number :=
  let (head, left) := gather 0 n.whole
  if n.fraction = none ∧ n.exponent = none ∧ left = 0 then
    if n.negative then
      if 0 < head ∧ head ≤ signedBound then some (.negative (-(head : Int)))
      else some (.float (signed true (.ofInt .binary64 head)))
    else some (.unsigned head)
  else
    let fraction := n.fraction.getD []
    let (significand, ignored) := gather head fraction
    let shift : Int := match n.exponent with
      | none => 0
      | some (negative, ds) =>
        let size := Nat.ofDigitChars 10 ds 0
        if negative then -(size : Int) else size
    let exponent := (left : Int) - (fraction.length - ignored) + shift
    (scaled significand exponent).map fun x => .float (signed n.negative x)

def lex (cs : List Char) : Leaf Number × List Char :=
  match split cs with
  | .error fault => (.broken fault .malformed, [])
  | .ok (numeral, rest) =>
    match numeral.number with
    | some n => (.whole n, rest)
    | none => (.unreadable, rest)

end Numeral

end TensorEval.Json
