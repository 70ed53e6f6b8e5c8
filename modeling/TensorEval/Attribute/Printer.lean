import TensorEval.Attribute.Basic
import TensorEval.Float.Text
import TensorEval.Text.Quoted
/-!
The text of an attribute.
-/
namespace TensorEval

def commaSeparated (items : List (List Char)) : List Char :=
  (items.intersperse [',', ' ']).flatten

namespace Attribute

/-- The bits of a value that is not finite, rounded to its element type and written with all the
digits of that type. Types that are not narrower than a double keep the bits of the double. -/
def bitsText (x : Double) : ElementType → List Char
  | .f16 => Text.hexDigits 4 (x.narrow .binary16).bits
  | .bf16 => Text.hexDigits 4 (x.narrow .bfloat16).bits
  | .f32 => Text.hexDigits 8 (x.narrow .binary32).bits
  | _ => Text.hexDigits 16 x.bits

def floatText (type : ElementType) (x : Double) : List Char :=
  if x.isFinite then DecimalStyle.display.finite x else '0' :: 'x' :: bitsText x type

def integerText (type : ElementType) (n : Int64) : List Char :=
  if type = .i1 then (if n ≠ 0 then "true" else "false").toList else Text.integer n.toInt

def typeSuffix (type : ElementType) : List Char := " : ".toList ++ type.name.toList

def tensorType (shape : Shape) (type : ElementType) : List Char :=
  "tensor<".toList ++ shape.flatMap (fun d => Text.digits d ++ ['x']) ++ type.name.toList ++ ['>']

/-- Texts as nested lists of the given shape, row by row. A row that the texts do not fill is
empty. -/
def nested : Shape → List (List Char) → List Char
  | [], values => values.headD []
  | d :: rest, values =>
    let stride := (Shape.elementCount rest).getD 0
    let row (i : Nat) :=
      if (i + 1) * stride ≤ values.length then (values.drop (i * stride)).take stride else []
    ['['] ++ commaSeparated ((List.range d).map fun i => nested rest (row i)) ++ [']']

def denseText {α : Type} (value : α → List Char) (literal : Dense α) : List Char :=
  let body := match literal.values with
    | .splat x => value x
    | .elements xs => nested literal.shape (xs.map value)
  "dense<".toList ++ body ++ "> : ".toList ++ tensorType literal.shape literal.type

mutual

def text : Attribute → List Char
  | float x type => floatText type x ++ typeSuffix type
  | integer n type => integerText type n ++ if type = .i1 then [] else typeSuffix type
  | denseFloat literal => denseText (floatText literal.type) literal
  | denseInteger literal => denseText (integerText literal.type) literal
  | string value => '"' :: Text.escape value.toList ++ ['"']
  | unit => "unit".toList
  | array items => '[' :: commaSeparated (itemTexts items) ++ [']']
  | typeName spelling => spelling.toList

def itemTexts : List Attribute → List (List Char)
  | [] => []
  | item :: items => item.text :: itemTexts items

end

def toString (a : Attribute) : String := String.ofList a.text

end Attribute

end TensorEval
