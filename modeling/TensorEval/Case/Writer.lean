import TensorEval.Attribute.Printer
import TensorEval.Case.Basic
import TensorEval.Json.Writer
import TensorEval.Text.Base64
/-!
Writing cases as JSON.
-/
namespace TensorEval

def Bindings.json {α : Type} (value : α → Json) (table : Bindings α) : Json :=
  .object (table.entries.map fun (name, x) => (name, value x))

def namesJson (names : List String) : Json := .array (names.map .string)

def Shape.json (s : Shape) : Json := .array (s.map fun (d : Nat) => .integer d)

/-- An input as an object. Its elements are written in the form in which they were given. -/
def Input.json (input : Input) : Json :=
  .object (
    [("data_type", .string input.type.name), ("shape", Shape.json input.shape)] ++
    (match input.values with
      | some values => [("values", .array (values.map .float))]
      | none => []) ++
    (match input.data with
      | some bytes => [("data", .string (String.ofList (Text.Base64.encode bytes)))]
      | none => []))

def Operation.json (op : Operation) : Json :=
  .object [
    ("name", .string op.kind),
    ("operands", namesJson op.operands),
    ("results", namesJson op.results),
    ("attributes", op.attributes.json fun value => .string value.toString),
    ("label", match op.label with
      | some label => .string label
      | none => .null)]

def Case.json (c : Case) : Json :=
  .object [
    ("inputs", c.inputs.json Input.json),
    ("operations", .array (c.operations.map Operation.json)),
    ("outputs", namesJson c.outputs)]

def Case.toText (c : Case) : String := c.json.toCompact

end TensorEval
