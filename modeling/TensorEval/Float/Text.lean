import TensorEval.Float.Decimal
import TensorEval.Text.Number
/-!
Doubles as text: reading a decimal numeral, and writing the shortest decimal in a given style.
-/
namespace TensorEval

structure DecimalStyle where
  /-- The least power of ten of a leading digit that is written without an exponent. -/
  leastPlain : Int
  /-- The largest such power of ten. -/
  mostPlain : Int
  /-- Whether an exponent that is not negative carries a plus sign. -/
  plusSign : Bool
  /-- The choice between two equally near shortest decimals. -/
  tie : TieRule

namespace DecimalStyle

/-- The style of attribute text and of text reports: no exponent from `0.0001` to below
`10 ^ 16`. -/
def display : DecimalStyle := ⟨-4, 15, false, .upward⟩

/-- Digits with a decimal point, at least one of them after it. -/
def plain (ds : List Char) (exponent : Int) : List Char :=
  if 0 ≤ exponent then ds ++ List.replicate exponent.toNat '0' ++ ['.', '0']
  else
    let places := (-exponent).toNat
    if places < ds.length then
      ds.take (ds.length - places) ++ '.' :: ds.drop (ds.length - places)
    else '0' :: '.' :: List.replicate (places - ds.length) '0' ++ ds

def scientific (style : DecimalStyle) (ds : List Char) (leading : Int) : List Char :=
  let mantissa := match ds with
    | [] => []
    | [d] => [d]
    | d :: rest => d :: '.' :: rest
  let sign := if style.plusSign ∧ 0 ≤ leading then ['+'] else []
  mantissa ++ 'e' :: sign ++ Text.integer leading

def decimal (style : DecimalStyle) (d : Decimal) : List Char :=
  let ds := Text.digits d.digits
  let leading := d.exponent + ds.length - 1
  if style.leastPlain ≤ leading ∧ leading ≤ style.mostPlain then plain ds d.exponent
  else style.scientific ds leading

def finite (style : DecimalStyle) (x : Double) : List Char :=
  (if x.negative then ['-'] else []) ++
    if x.isZero then ['0', '.', '0'] else style.decimal (Decimal.shortest style.tie x)

def text (style : DecimalStyle) (x : Double) : List Char :=
  if x.isNaN then ['N', 'a', 'N']
  else if x.isInfinite then (if x.negative then ['-'] else []) ++ ['i', 'n', 'f']
  else style.finite x

end DecimalStyle

namespace Decimal

/-- A decimal numeral without a sign: digits around an optional point, at least one in all, and an
optional exponent. -/
def read (cs : List Char) : Option Decimal := do
  let whole := cs.takeWhile Char.isDigit
  let rest := cs.dropWhile Char.isDigit
  let (fraction, rest) := match rest with
    | '.' :: more => (more.takeWhile Char.isDigit, more.dropWhile Char.isDigit)
    | _ => ([], rest)
  guard (whole ≠ [] ∨ fraction ≠ [])
  let exponent ← match rest with
    | [] => some 0
    | c :: more => if c = 'e' ∨ c = 'E' then Text.readInteger more else none
  return ⟨Nat.ofDigitChars 10 (whole ++ fraction) 0, exponent - fraction.length⟩

end Decimal

namespace FloatWord

/-- A double without a sign: a numeral, or the name of infinity or NaN in any case of letters. -/
def readUnsigned (negative : Bool) (cs : List Char) : Option Double :=
  match Decimal.read cs with
  | some d => some (d.toDouble negative)
  | none =>
    let name := cs.map Char.toLower
    if name = ['i', 'n', 'f'] ∨ name = ['i', 'n', 'f', 'i', 'n', 'i', 't', 'y'] then
      some (infinite .binary64 negative)
    else if name = ['n', 'a', 'n'] then some { nan .binary64 with negative }
    else none

def readDouble : List Char → Option Double
  | '-' :: cs => readUnsigned true cs
  | cs => readUnsigned false (Text.dropPlus cs)

end FloatWord

end TensorEval
