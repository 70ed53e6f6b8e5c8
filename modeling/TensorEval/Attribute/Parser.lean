import TensorEval.Attribute.Literal
import TensorEval.Text.Quoted
/-!
Reading an attribute from its text.
-/
namespace TensorEval.Attribute

def afterStart : List Char → List Char → Option (List Char)
  | [], cs => some cs
  | _ :: _, [] => none
  | d :: ds, c :: cs => if d = c then afterStart ds cs else none

def beforeLast (last : Char) (cs : List Char) : Option (List Char) :=
  if cs.getLast? = some last then some cs.dropLast else none

def quotedBody : List Char → Option (List Char)
  | '"' :: cs => beforeLast '"' cs
  | _ => none

/-- The body of a dense literal and the contents of its tensor or vector type. The type is found
from the end, since the body can hold anything. -/
def denseParts (cs : List Char) : Option (List Char × List Char) := do
  let rest ← afterStart "dense<".toList cs
  let reversed ← afterStart ['>'] rest.reverse
  let inType (c : Char) : Bool := c ≠ '<' && c ≠ '>'
  let type := reversed.takeWhile inType
  let before ← afterStart ['<'] (reversed.dropWhile inType)
  let before ← afterStart "tensor".toList.reverse before <|>
    afterStart "vector".toList.reverse before
  let before ← afterStart [':'] (before.dropWhile Text.isBlank)
  let body ← afterStart ['>'] (before.dropWhile Text.isBlank)
  return (body.reverse, type.reverse)

/-- A place in the text of an array: the brackets open around it, whether it stands in a string,
and whether a backslash in the string comes just before it. -/
structure Nesting where
  depth : Int
  quoted : Bool
  escaped : Bool
  deriving DecidableEq, Repr

namespace Nesting

def top : Nesting := ⟨0, false, false⟩

/-- The place after a character. Brackets of all kinds count alike. -/
def step (n : Nesting) (c : Char) : Nesting :=
  if n.escaped then { n with escaped := false }
  else if n.quoted then
    if c = '\\' then { n with escaped := true }
    else if c = '"' then { n with quoted := false }
    else n
  else if c = '"' then { n with quoted := true }
  else if c = '[' ∨ c = '<' ∨ c = '(' ∨ c = '\x7b' then { n with depth := n.depth + 1 }
  else if c = ']' ∨ c = '>' ∨ c = ')' ∨ c = '\x7d' then { n with depth := n.depth - 1 }
  else n

def separates (n : Nesting) (c : Char) : Bool := n = top && c = ','

end Nesting

/-- The pieces of a text between the commas outside of all brackets and strings. -/
def splitFrom (n : Nesting) : List Char → List (List Char)
  | [] => [[]]
  | c :: cs =>
    if n.separates c then [] :: splitFrom n cs
    else match splitFrom (n.step c) cs with
      | piece :: pieces => (c :: piece) :: pieces
      | [] => [[c]]

def splitItems (cs : List Char) : List (List Char) := splitFrom .top cs

def typedParts (cs : List Char) : Option (List Char × List Char) :=
  let value := cs.takeWhile (· ≠ ':')
  match cs.dropWhile (· ≠ ':') with
  | [] => none
  | _ :: rest =>
    let word := Text.trimStart rest
    if value ≠ [] ∧ isTypeWord word then some (Text.trim value, word) else none

def isType (cs : List Char) : Bool :=
  (ElementType.ofName? (String.ofList cs)).isSome ||
    (afterStart "tensor<".toList cs).isSome ||
    (afterStart "memref<".toList cs).isSome ||
    (afterStart "vector<".toList cs).isSome

def readPlain (cs : List Char) : Except AttributeFault Attribute :=
  if cs = "true".toList then .ok (integer 1 .i1)
  else if cs = "false".toList then .ok (integer 0 .i1)
  else match typedParts cs with
    | some (value, word) =>
      match ElementType.ofName? (String.ofList word) with
      | some type => readTyped type value
      | none => .error (.unknownScalarType (String.ofList word))
    | none =>
      match Text.readInt64 cs with
      | some n => .ok (integer n .i64)
      | none =>
        match FloatWord.readDouble cs with
        | some x => .ok (float x .f64)
        | none =>
          if isType cs then .ok (typeName (String.ofList cs)) else .error .unrecognized

def readDenseParts (body type : List Char) : Except AttributeFault Attribute := do
  let (shape, elementType) ← readTensorType type
  readDense shape elementType body

/-- An attribute with arrays nested less than `depth` deep. -/
def readWithin : Nat → List Char → Except AttributeError Attribute
  | 0, cs => .error ⟨String.ofList cs, .unrecognized⟩
  | depth + 1, cs =>
    let locate (r : Except AttributeFault Attribute) : Except AttributeError Attribute :=
      r.mapError fun fault => ⟨String.ofList cs, fault⟩
    let trimmed := Text.trim cs
    if trimmed = [] then locate (.error .empty)
    else if trimmed = "unit".toList then .ok unit
    else match quotedBody trimmed with
      | some body => .ok (string (String.ofList (Text.unescape body)))
      | none =>
        match denseParts trimmed with
        | some (body, type) => locate (readDenseParts body type)
        | none =>
          match afterStart ['['] trimmed with
          | some rest =>
            match beforeLast ']' rest with
            | some inner => do
              let items ← ((splitItems inner).filter fun item => Text.trim item ≠ []).mapM
                (readWithin depth)
              return array items
            | none => locate (.error .unterminatedArray)
          | none => locate (readPlain trimmed)

/-- An attribute from its text. Each nested array takes two characters at least, so the length of
the text bounds the nesting. -/
def read (cs : List Char) : Except AttributeError Attribute := readWithin (cs.length + 1) cs

def ofString (s : String) : Except AttributeError Attribute := read s.toList

end TensorEval.Attribute
