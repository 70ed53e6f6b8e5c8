import TensorEval.Float.Text
/-!
Writing JSON, in one line or over indented lines.
-/
namespace TensorEval

/-- A JSON value to be written. -/
inductive Json where
  | null
  | boolean (value : Bool)
  | integer (value : Int)
  /-- A double. One that is not finite is written as `null`. -/
  | float (value : Double)
  | string (value : String)
  | array (items : List Json)
  | object (members : List (String × Json))

namespace Json

/-- The style of JSON numbers: no exponent from `0.00001` to below `10 ^ 16`. -/
def numberStyle : DecimalStyle := ⟨-5, 15, true, .toEven⟩

def escapedChar (c : Char) : List Char :=
  if c = '"' ∨ c = '\\' then ['\\', c]
  else if c = '\x08' then ['\\', 'b']
  else if c = '\x0c' then ['\\', 'f']
  else if c = '\n' then ['\\', 'n']
  else if c = '\r' then ['\\', 'r']
  else if c = '\t' then ['\\', 't']
  else if c < ' ' then
    ['\\', 'u', '0', '0', Nat.digitChar (c.toNat / 16), Nat.digitChar (c.toNat % 16)]
  else [c]

def quoted (s : String) : List Char := '"' :: s.toList.flatMap escapedChar ++ ['"']

def floatText (x : Double) : List Char :=
  if x.isFinite then numberStyle.finite x else ['n', 'u', 'l', 'l']

/-- A value without parts. Arrays and objects count as empty here. -/
def leafText : Json → List Char
  | null => ['n', 'u', 'l', 'l']
  | boolean b => (if b then "true" else "false").toList
  | integer n => Text.integer n
  | float x => floatText x
  | string s => quoted s
  | array _ => ['[', ']']
  | object _ => ['\x7b', '\x7d']

def lineBreak (depth : Nat) : List Char := '\n' :: List.replicate (2 * depth) ' '

mutual

def compact : Json → List Char
  | array (first :: rest) => '[' :: compact first ++ compactItems rest
  | object ((name, first) :: rest) =>
    '\x7b' :: quoted name ++ ':' :: compact first ++ compactMembers rest
  | value => value.leafText

/-- Further items of an array and its closing bracket. -/
def compactItems : List Json → List Char
  | [] => [']']
  | item :: rest => ',' :: compact item ++ compactItems rest

def compactMembers : List (String × Json) → List Char
  | [] => ['\x7d']
  | (name, value) :: rest =>
    ',' :: quoted name ++ ':' :: compact value ++ compactMembers rest

end

mutual

/-- The value with every item and every member on a line of its own. `depth` counts the arrays
and objects around it. -/
def prettyAt (depth : Nat) : Json → List Char
  | array (first :: rest) =>
    '[' :: lineBreak (depth + 1) ++ prettyAt (depth + 1) first ++ prettyItems depth rest
  | object ((name, first) :: rest) =>
    '\x7b' :: lineBreak (depth + 1) ++ quoted name ++ [':', ' '] ++ prettyAt (depth + 1) first ++
      prettyMembers depth rest
  | value => value.leafText

def prettyItems (depth : Nat) : List Json → List Char
  | [] => lineBreak depth ++ [']']
  | item :: rest =>
    ',' :: lineBreak (depth + 1) ++ prettyAt (depth + 1) item ++ prettyItems depth rest

def prettyMembers (depth : Nat) : List (String × Json) → List Char
  | [] => lineBreak depth ++ ['\x7d']
  | (name, value) :: rest =>
    ',' :: lineBreak (depth + 1) ++ quoted name ++ [':', ' '] ++ prettyAt (depth + 1) value ++
      prettyMembers depth rest

end

def toCompact (value : Json) : String := String.ofList value.compact

def toPretty (value : Json) : String := String.ofList (value.prettyAt 0)

end Json

end TensorEval
