import TensorEval.ElementType
import TensorEval.Shape
import TensorEval.Text.Quoted
/-!
What can go wrong, by cause, and the wording of each cause.
-/
namespace TensorEval

inductive AttributeFault where
  | empty
  | unsupportedTensor (type : String)
  | invalidDimension (dimension : String)
  | unknownElementType (type : String)
  | unknownScalarType (type : String)
  | invalidBits (token : String)
  | invalidFloat (token : String)
  | invalidInteger (token : String)
  | encodedPayload
  | countOverflow
  | countMismatch (found : Nat) (shape : Shape) (expected : Nat)
  | unterminatedArray
  | unrecognized
  deriving DecidableEq, Repr

def AttributeFault.message : AttributeFault → String
  | empty => "empty attribute"
  | unsupportedTensor type => s!"unsupported tensor type `{type}`"
  | invalidDimension dimension => s!"invalid dimension `{dimension}`"
  | unknownElementType type => s!"unknown element type `{type}`"
  | unknownScalarType type => s!"unknown scalar type `{type}`"
  | invalidBits token => s!"invalid bit pattern `{token}`"
  | invalidFloat token => s!"invalid float `{token}`"
  | invalidInteger token => s!"invalid integer `{token}`"
  | encodedPayload => "hex-encoded dense payloads are not supported"
  | countOverflow => "element count overflows"
  | countMismatch found shape expected =>
    s!"literal has {found} elements but shape {shape.text} holds {expected}"
  | unterminatedArray => "unterminated array"
  | unrecognized => "unrecognized attribute syntax"

structure AttributeError where
  text : String
  fault : AttributeFault
  deriving DecidableEq, Repr

def AttributeError.message (e : AttributeError) : String :=
  s!"attribute `{e.text}` could not be parsed: {e.fault.message}"

/-- Why a JSON text is not the value asked for. The first problem from the left decides. -/
inductive Refusal where
  /-- The text ends early. -/
  | truncated
  /-- The text is not JSON. -/
  | malformed
  /-- The text is JSON so far and holds a value of the wrong form, or not exactly the members that
  are asked for. -/
  | unexpected
  /-- A string in the place of an attribute does not spell one. -/
  | notAnAttribute (error : AttributeError)
  deriving DecidableEq, Repr

inductive DataUnit where
  | elements | bytes
  deriving DecidableEq, Repr

def DataUnit.name : DataUnit → String
  | elements => "elements"
  | bytes => "bytes"

/-- Why a case cannot be loaded, is not well formed, or cannot be evaluated. -/
inductive Failure where
  | unreadable (path : String) (cause : String)
  | refused (refusal : Refusal)
  | unsupportedFile (path : String)
  | notAnAttribute (error : AttributeError)
  | unsupportedConstant (kind : String)
  | notUniform (shape : Shape)
  | missingAttribute (operation required : String)
  | missingOperand (name : String)
  | operandCount (operation : String) (expected actual : Nat)
  | resultCount (operation : String) (declared expected : Nat)
  | unknownKind (requested : String) (available : List String)
  | operandType (operation operand : String) (type : ElementType) (domain : Domain)
  | incompatibleShapes (left right : Shape)
  | overLimit (shape : Shape) (byteLength limit : Nat)
  | countOverflow (shape : Shape)
  | dataLength (name : String) (type : ElementType) (expected : Nat) (unit : DataUnit)
      (actual : Nat)
  | ambiguousData (name : String)
  | emptyCase
  | operandNotReady (operation operand : String)
  | producedTwice (operation name : String)
  | outputNotProduced (name : String)
  | atOperation (index : Nat) (name : String) (cause : Failure)
  deriving DecidableEq, Repr

def Refusal.message : Refusal → String
  | truncated => "unexpected end of text"
  | malformed => "malformed text"
  | unexpected => "unexpected value"
  | notAnAttribute error => error.message

namespace Failure

def message : Failure → String
  | unreadable path cause => s!"case file {path} could not be read: {cause}"
  | refused refusal => s!"case JSON could not be parsed: {refusal.message}"
  | unsupportedFile path => s!"case file {path} has unsupported extension; use .json"
  | notAnAttribute error => error.message
  | unsupportedConstant kind => s!"constant does not support attribute kind `{kind}`"
  | notUniform shape =>
    s!"constant of shape {shape.text} is not a splat literal; only splat literals are supported"
  | missingAttribute operation required =>
    s!"operation `{operation}` is missing attribute `{required}`"
  | missingOperand name => s!"operand `{name}` is not present in the environment"
  | operandCount operation expected actual =>
    s!"operation `{operation}` expects {expected} operands, got {actual}"
  | resultCount operation declared expected =>
    s!"operation `{operation}` declares {declared} results, expected {expected}"
  | unknownKind requested available =>
    s!"operation `{requested}` has no reference implementation. Supported: " ++
      Text.listedNames available
  | operandType operation operand type domain =>
    s!"operand `{operand}` of `{operation}` has type {type.name}, " ++
      s!"expected {domain.description} operands"
  | incompatibleShapes left right =>
    s!"shapes {left.text} and {right.text} cannot be broadcast together"
  | overLimit shape byteLength limit =>
    s!"tensor of shape {shape.text} exceeds tensor byte limit ({byteLength} > {limit})"
  | countOverflow shape => s!"tensor of shape {shape.text} overflows element count"
  | dataLength name type expected unit actual =>
    s!"tensor `{name}` of type {type.name} expects {expected} {unit.name}, got {actual}"
  | ambiguousData name => s!"tensor `{name}` must provide exactly one of `values` or `data`"
  | emptyCase => "case must declare operations and outputs"
  | operandNotReady operation operand =>
    s!"operation `{operation}` consumes `{operand}` before it is produced"
  | producedTwice operation name => s!"operation `{operation}` attempts to redefine `{name}`"
  | outputNotProduced name => s!"case output `{name}` is never produced"
  | atOperation index name cause => s!"operation #{index} `{name}` failed: {cause.message}"

/-- The failure below every mention of an operation. -/
def rootCause : Failure → Failure
  | atOperation _ _ cause => cause.rootCause
  | failure => failure

end Failure

/-- Why a computation has no result: it failed, or the storage of a shape cannot be addressed and
nothing more can be said. -/
inductive Stop where
  | failed (failure : Failure)
  | unaddressable (shape : Shape)
  deriving DecidableEq, Repr

abbrev Outcome (α : Type) := Except Stop α

def Outcome.ofExcept {α : Type} (r : Except Failure α) : Outcome α :=
  r.mapError .failed

def Outcome.atOperation {α : Type} (index : Nat) (name : String) (r : Outcome α) : Outcome α :=
  r.mapError fun
    | .failed failure => .failed (.atOperation index name failure)
    | .unaddressable shape => .unaddressable shape

end TensorEval
