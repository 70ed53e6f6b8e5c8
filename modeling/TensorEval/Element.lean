import TensorEval.ElementType
import TensorEval.Float.Arithmetic
/-!
Elements of each type: truth values, two's complement integers and floating-point numbers, with
their conversions and their elementwise operators.
-/
namespace TensorEval

/-- What the elements of a type are. -/
inductive Carrier where
  | flag
  | signed (width : Nat)
  | floating (format : FloatFormat)
  deriving DecidableEq, Repr

inductive Operator where
  | mul | add | max | min
  deriving DecidableEq, Repr

/-- A number before it meets an element type. -/
inductive Fill where
  | float (value : Double)
  | integer (value : Int64)
  deriving DecidableEq

namespace Carrier

abbrev Value : Carrier → Type
  | flag => Bool
  | signed width => BitVec width
  | floating format => FloatWord format

instance : (c : Carrier) → DecidableEq c.Value
  | flag => inferInstanceAs (DecidableEq Bool)
  | signed width => inferInstanceAs (DecidableEq (BitVec width))
  | floating format => inferInstanceAs (DecidableEq (FloatWord format))

/-- A double as an element: truth of being nonzero, the integer it truncates to, or the number it
narrows to. A NaN is true. -/
def ofDouble : (c : Carrier) → Double → c.Value
  | flag, x => !x.isZero
  | signed width, x => BitVec.ofInt width (x.truncate width)
  | floating F, x => x.narrow F

/-- An integer as an element. Integers wrap; the 16-bit float formats are reached through a
double. -/
def ofInteger : (c : Carrier) → Int → c.Value
  | flag, n => decide (n ≠ 0)
  | signed width, n => BitVec.ofInt width n
  | floating .binary64, n => .ofInt .binary64 n
  | floating .binary32, n => .ofInt .binary32 n
  | floating .binary16, n => (FloatWord.ofInt .binary64 n).narrow .binary16
  | floating .bfloat16, n => (FloatWord.ofInt .binary64 n).narrow .bfloat16

/-- An element as a double. Integers of more than 53 bits are rounded. -/
def toDouble : (c : Carrier) → c.Value → Double
  | flag, b => .ofInt .binary64 b.toInt
  | signed _, n => .ofInt .binary64 n.toInt
  | floating _, x => x.widen

/-- An element as a 64-bit integer. Floating-point numbers are truncated and clamped. -/
def toInteger : (c : Carrier) → c.Value → Int
  | flag, b => b.toInt
  | signed _, n => n.toInt
  | floating _, x => x.widen.truncate 64

/-- The stored bits of an element. -/
def code : (c : Carrier) → c.Value → Nat
  | flag, b => b.toNat
  | signed _, n => n.toNat
  | floating _, x => x.bits

/-- The element with the given stored bits. Any code but zero is true. -/
def ofCode : (c : Carrier) → Nat → c.Value
  | flag, n => decide (n ≠ 0)
  | signed width, n => BitVec.ofNat width n
  | floating F, n => .ofBits F n

def isNaN : (c : Carrier) → c.Value → Bool
  | flag, _ => false
  | signed _, _ => false
  | floating _, x => x.isNaN

/-- Whether two elements have the same bits. Every NaN matches every NaN. -/
def sameBits (c : Carrier) (x y : c.Value) : Bool :=
  c.code x = c.code y || (c.isNaN x && c.isNaN y)

/-- Numeric equality. A NaN equals nothing, and the two zeros are equal. -/
def equals : (c : Carrier) → c.Value → c.Value → Bool
  | flag, x, y => x == y
  | signed _, x, y => x == y
  | floating _, x, y => x.equals y

def combineFloats {F : FloatFormat} (op : Operator) (x y : FloatWord F) : FloatWord F :=
  match op with
  | .mul => x.mul y
  | .add => x.add y
  | .max => x.maximum y
  | .min => x.minimum y

/-- An operator on two elements. Truth values join and meet, integers wrap, and the 16-bit float
formats compute in single precision. -/
def combine (op : Operator) : (c : Carrier) → c.Value → c.Value → c.Value
  | flag, x, y => match op with
    | .add | .max => x || y
    | .mul | .min => x && y
  | signed _, x, y => match op with
    | .add => x + y
    | .mul => x * y
    | .max => if x.slt y then y else x
    | .min => if y.slt x then y else x
  | floating .binary64, x, y => combineFloats op x y
  | floating .binary32, x, y => combineFloats op x y
  | floating .binary16, x, y =>
    (combineFloats op (x.convert .binary32) (y.convert .binary32)).convert .binary16
  | floating .bfloat16, x, y =>
    (combineFloats op (x.convert .binary32) (y.convert .binary32)).convert .bfloat16

end Carrier

def ElementType.carrier : ElementType → Carrier
  | i1 => .flag
  | i8 => .signed 8
  | i16 => .signed 16
  | i32 => .signed 32
  | i64 => .signed 64
  | f16 => .floating .binary16
  | bf16 => .floating .bfloat16
  | f32 => .floating .binary32
  | f64 => .floating .binary64

abbrev Element (t : ElementType) : Type := t.carrier.Value

namespace Element

def ofFill (t : ElementType) : Fill → Element t
  | .float x => t.carrier.ofDouble x
  | .integer n => t.carrier.ofInteger n.toInt

def zero (t : ElementType) : Element t := t.carrier.ofInteger 0

/-- An element in another type: through a double if that is a float type, else through a 64-bit
integer. -/
def convert {s : ElementType} (t : ElementType) (x : Element s) : Element t :=
  if t.isFloat then t.carrier.ofDouble (s.carrier.toDouble x)
  else t.carrier.ofInteger (s.carrier.toInteger x)

/-- A list entry of an input: truncated to a 64-bit integer unless the type is a float type. -/
def ofNumber (t : ElementType) (x : Double) : Element t :=
  if t.isFloat then t.carrier.ofDouble x else t.carrier.ofInteger (x.truncate 64)

def littleEndian : List UInt8 → Nat
  | [] => 0
  | b :: bs => b.toNat + 256 * littleEndian bs

def ofBytes (t : ElementType) (bytes : List UInt8) : Element t :=
  t.carrier.ofCode (littleEndian bytes)

end Element

end TensorEval
