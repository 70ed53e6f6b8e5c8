import TensorEval.Attribute.Basic
import TensorEval.Element
import TensorEval.Failure
import TensorEval.Float.Text
import TensorEval.Text.Blank
/-!
Reading the numbers of attributes: scalars, and dense literals with their tensor type.
-/
namespace TensorEval.Attribute

def afterHexMark : List Char → Option (List Char)
  | '0' :: 'x' :: cs => some cs
  | '0' :: 'X' :: cs => some cs
  | _ => none

/-- The double whose bits, at the width of a float type, are the low bits of a word. -/
def doubleOfBits (type : ElementType) (bits : Nat) : Double :=
  match type with
  | .f16 => (FloatWord.ofBits .binary16 bits).widen
  | .bf16 => (FloatWord.ofBits .bfloat16 bits).widen
  | .f32 => (FloatWord.ofBits .binary32 bits).widen
  | _ => .ofBits .binary64 bits

/-- A value of a float type: a decimal numeral or hexadecimal bits. -/
def readFloat (type : ElementType) (token : List Char) : Except AttributeFault Double :=
  match afterHexMark token with
  | some digits =>
    match Text.readHexWord digits with
    | some bits => .ok (doubleOfBits type bits)
    | none => .error (.invalidBits (String.ofList token))
  | none =>
    match FloatWord.readDouble token with
    | some x => .ok x
    | none => .error (.invalidFloat (String.ofList token))

/-- An integer value: a truth value, hexadecimal bits, or a decimal of 64 bits with or without a
sign. -/
def readInteger? (token : List Char) : Option Int64 :=
  if token = "true".toList then some 1
  else if token = "false".toList then some 0
  else match afterHexMark token with
    | some digits => (Text.readHexWord digits).map fun n => Int64.ofNat n
    | none => Text.readInt64 token <|> (Text.readWord token).map fun n => Int64.ofNat n

def readInteger (token : List Char) : Except AttributeFault Int64 :=
  match readInteger? token with
  | some n => .ok n
  | none => .error (.invalidInteger (String.ofList token))

def readTyped (type : ElementType) (token : List Char) : Except AttributeFault Attribute :=
  if type.isFloat then (readFloat type token).map (float · type)
  else (readInteger token).map (integer · type)

def splitWhere (p : Char → Bool) : List Char → List (List Char)
  | [] => [[]]
  | c :: cs =>
    if p c then [] :: splitWhere p cs
    else match splitWhere p cs with
      | piece :: pieces => (c :: piece) :: pieces
      | [] => [[c]]

/-- The values of a literal body, row by row. Brackets and commas only separate. -/
def listTokens (body : List Char) : List (List Char) :=
  ((splitWhere (fun c => c = '[' || c = ']' || c = ',') body).map Text.trim).filter (· ≠ [])

def roundedBits (type : ElementType) (x : Double) : Nat :=
  match type with
  | .f16 => (x.narrow .binary16).bits
  | .bf16 => (x.narrow .bfloat16).bits
  | .f32 => (x.narrow .binary32).bits
  | _ => x.bits

/-- A value once it is wrapped into an integer type, as a word of 64 bits. A truth value is one
or zero. -/
def wrapped (type : ElementType) (n : Int64) : Int64 :=
  match type with
  | .i1 => if n = 0 then 0 else 1
  | .i8 => n.toInt8.toInt64
  | .i16 => n.toInt16.toInt64
  | .i32 => n.toInt32.toInt64
  | _ => n

/-- Values that are all the same as the first one become one splat value. -/
def collapse {α : Type} (same : α → α → Bool) (values : List α) : DenseValues α :=
  match values with
  | [] => .elements []
  | first :: rest => if rest.all (same first) then .splat first else .elements (first :: rest)

/-- The values of a dense literal: a list of as many values as the shape holds, or one value. -/
def readDense (shape : Shape) (type : ElementType) (body : List Char) :
    Except AttributeFault Attribute := do
  let body := Text.trim body
  let isList := body.head? = some '['
  if body.head? = some '"' then throw .encodedPayload
  let some expected := Shape.elementCount shape | throw .countOverflow
  let tokens := if isList then listTokens body else [body]
  if isList ∧ tokens.length ≠ expected then
    throw (.countMismatch tokens.length shape expected)
  if type.isFloat then
    let values ← tokens.mapM (readFloat type)
    return denseFloat ⟨shape, type, collapse
      (fun x y => roundedBits type x = roundedBits type y) values⟩
  else
    let values ← tokens.mapM readInteger
    return denseInteger ⟨shape, type, collapse
      (fun m n => wrapped type m = wrapped type n) values⟩

def isSmallLetter (c : Char) : Bool := 'a' ≤ c && c ≤ 'z'

/-- Whether a text has the form of a scalar type: a small letter, then small letters and digits. -/
def isTypeWord : List Char → Bool
  | [] => false
  | c :: cs => isSmallLetter c && cs.all fun d => isSmallLetter d || d.isDigit

/-- The dimensions in front of an element type, each with an `x` after it, and what follows.
`pending` holds the digits of a dimension that is still open. -/
def splitDimensions (pending : List Char) : List Char → Option (List (List Char) × List Char)
  | [] => if pending = [] then some ([], []) else none
  | c :: cs =>
    if c.isDigit then splitDimensions (pending ++ [c]) cs
    else if pending = [] then some ([], c :: cs)
    else if c = 'x' then
      (splitDimensions [] cs).map fun (dims, rest) => (pending :: dims, rest)
    else none

def readDimension (digits : List Char) : Except AttributeFault Nat :=
  match Text.readWord digits with
  | some n => .ok n
  | none => .error (.invalidDimension (String.ofList digits))

def readTensorType (text : List Char) : Except AttributeFault (Shape × ElementType) :=
  match splitDimensions [] text with
  | some (dims, word) =>
    if isTypeWord word then do
      let shape ← dims.mapM readDimension
      match ElementType.ofName? (String.ofList word) with
      | some type => return (shape, type)
      | none => throw (.unknownElementType (String.ofList word))
    else .error (.unsupportedTensor (String.ofList text))
  | none => .error (.unsupportedTensor (String.ofList text))

end TensorEval.Attribute
