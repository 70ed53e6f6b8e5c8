import TensorEval.Case.Validation
import TensorEval.Case.Writer
import TensorEval.Run.Basic
import TensorEval.Tensor.Text
/-!
Reports on cases and runs, as lines of text and as JSON.
-/
namespace TensorEval

def Tensor.json (x : Tensor) : Json :=
  .object [
    ("data_type", .string x.type.name),
    ("shape", x.shape.json),
    ("values", .array x.jsonValues)]

def Run.json (run : Run) : Json := (Bindings.ofList run.outputs).json Tensor.json

def Run.report (run : Run) : String := run.json.toPretty

def outputLine (name : String) (x : Tensor) : String :=
  s!"  - {name}: {x.typeText} {x.valuesText}"

def Run.lines (run : Run) : List String :=
  "Outputs:" :: run.outputs.map fun (name, x) => outputLine name x

def dependentsLine (value : String) (names : List String) : String :=
  "  - " ++ value ++ " -> " ++ ", ".intercalate names

def Wiring.lines (wiring : Wiring) (path : String) (c : Case) : List String :=
  s!"Validated case `{path}` with {c.inputs.size} inputs and {c.operations.length} operations." ::
    "Dependency fan-out:" ::
    wiring.dependents.entries.map fun (value, names) => dependentsLine value names

end TensorEval
