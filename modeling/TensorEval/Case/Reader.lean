import TensorEval.Attribute.Parser
import TensorEval.Case.Basic
import TensorEval.Json.Reader
import TensorEval.Text.Base64
/-!
Reading cases from JSON.
-/
namespace TensorEval

open Json (Reader RecordField Node)

/-- A field that is kept as an option while its record is read. -/
def Json.RecordField.keep {σ α : Type} (name : String) (get : σ → Option α) (set : α → σ → σ)
    (r : Reader α) : RecordField σ where
  name := name
  isRead state := (get state).isSome
  read node state := (r node).map (set · state)

def ElementType.read : Reader ElementType := Node.readName ofName?

def readBytes : Reader (List UInt8) := fun node => do
  match Text.Base64.decode (← node.readString).toList with
  | some bytes => return bytes
  | none => throw .unexpected

def Attribute.readNode : Reader Attribute := fun node => do
  match Attribute.ofString (← node.readString) with
  | .ok value => return value
  | .error error => throw (.notAnAttribute error)

namespace Input

structure Parts where
  type : Option ElementType
  shape : Option Shape
  values : Option (Option (List Double))
  data : Option (Option (List UInt8))

/-- The fields of an input, in the order of its array form. -/
def fields : List (RecordField Parts) := [
  .keep "data_type" Parts.type (fun x s => { s with type := some x }) ElementType.read,
  .keep "shape" Parts.shape (fun x s => { s with shape := some x }) (Node.readList Node.readWord),
  .keep "values" Parts.values (fun x s => { s with values := some x })
    (Node.readOptional (Node.readList Node.readDouble)),
  .keep "data" Parts.data (fun x s => { s with data := some x }) (Node.readOptional readBytes)]

/-- A declared input. Only the element type has to be given. -/
def read : Reader Input := fun node => do
  let parts ← node.readRecord fields ⟨none, none, none, none⟩
  match parts.type with
  | some type => return ⟨type, parts.shape.getD [], parts.values.join, parts.data.join⟩
  | none => throw .unexpected

def ofText (text : String) : Except Refusal Input := Json.readText read text

end Input

namespace Operation

structure Parts where
  kind : Option String
  operands : Option (List String)
  results : Option (List String)
  attributes : Option (Bindings Attribute)
  label : Option (Option String)

def fields : List (RecordField Parts) := [
  .keep "name" Parts.kind (fun x s => { s with kind := some x }) Node.readString,
  .keep "operands" Parts.operands (fun x s => { s with operands := some x })
    (Node.readList Node.readString),
  .keep "results" Parts.results (fun x s => { s with results := some x })
    (Node.readList Node.readString),
  .keep "attributes" Parts.attributes (fun x s => { s with attributes := some x })
    (Node.readTable Attribute.readNode),
  .keep "label" Parts.label (fun x s => { s with label := some x })
    (Node.readOptional Node.readString)]

/-- An operation. Only the kind has to be given. -/
def read : Reader Operation := fun node => do
  let parts ← node.readRecord fields ⟨none, none, none, none, none⟩
  match parts.kind with
  | some kind =>
    return ⟨kind, parts.operands.getD [], parts.results.getD [],
      parts.attributes.getD .empty, parts.label.join⟩
  | none => throw .unexpected

def ofText (text : String) : Except Refusal Operation := Json.readText read text

end Operation

namespace Case

structure Parts where
  inputs : Option (Bindings Input)
  operations : Option (List Operation)
  outputs : Option (List String)

def fields : List (RecordField Parts) := [
  .keep "inputs" Parts.inputs (fun x s => { s with inputs := some x }) (Node.readTable Input.read),
  .keep "operations" Parts.operations (fun x s => { s with operations := some x })
    (Node.readList Operation.read),
  .keep "outputs" Parts.outputs (fun x s => { s with outputs := some x })
    (Node.readList Node.readString)]

/-- A case. Whatever is not given is empty. -/
def read : Reader Case := fun node => do
  let parts ← node.readRecord fields ⟨none, none, none⟩
  return ⟨parts.inputs.getD .empty, parts.operations.getD [], parts.outputs.getD []⟩

def ofText (text : String) : Except Refusal Case := Json.readText read text

end Case

end TensorEval
