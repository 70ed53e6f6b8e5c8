import TensorEval.Word
/-!
Integers as text: decimal and hexadecimal digits, signs, and the words they have to fit.
-/
namespace TensorEval.Text

def readDigits (cs : List Char) : Option Nat :=
  if cs ≠ [] ∧ cs.all Char.isDigit then some (Nat.ofDigitChars 10 cs 0) else none

def hexDigitValue (c : Char) : Option Nat :=
  if '0' ≤ c ∧ c ≤ '9' then some (c.toNat - '0'.toNat)
  else if 'a' ≤ c ∧ c ≤ 'f' then some (c.toNat - 'a'.toNat + 10)
  else if 'A' ≤ c ∧ c ≤ 'F' then some (c.toNat - 'A'.toNat + 10)
  else none

def readHexDigits (cs : List Char) : Option Nat :=
  if cs = [] then none
  else cs.foldlM (fun n c => (hexDigitValue c).map (16 * n + ·)) 0

def dropPlus : List Char → List Char
  | '+' :: cs => cs
  | cs => cs

/-- An unsigned 64-bit word in decimal, with or without a plus sign. -/
def readWord (cs : List Char) : Option Nat :=
  (readDigits (dropPlus cs)).filter (· < wordBound)

def readHexWord (cs : List Char) : Option Nat :=
  (readHexDigits (dropPlus cs)).filter (· < wordBound)

def readInteger : List Char → Option Int
  | '-' :: cs => (readDigits cs).map (fun n => -(n : Int))
  | cs => (readDigits (dropPlus cs)).map (fun n => (n : Int))

def readInt64 (cs : List Char) : Option Int64 :=
  ((readInteger cs).filter fun n => -(signedBound : Int) ≤ n ∧ n < signedBound).map Int64.ofInt

def digits (n : Nat) : List Char := Nat.toDigits 10 n

def integer (n : Int) : List Char :=
  if n < 0 then '-' :: digits n.natAbs else digits n.natAbs

def hexDigit (n : Nat) : Char :=
  if n < 10 then Char.ofNat ('0'.toNat + n) else Char.ofNat ('A'.toNat + (n - 10))

/-- The last `width` hexadecimal digits of a number, in upper case. -/
def hexDigits : Nat → Nat → List Char
  | 0, _ => []
  | width + 1, n => hexDigits width (n / 16) ++ [hexDigit (n % 16)]

end TensorEval.Text
