import TensorEval.Text.Blank
/-!
How much a run logs.
-/
namespace TensorEval

/-- What a run logs: nothing, each bound value, or each bound value with its elements. -/
inductive LogLevel where
  | off | bindings | elements
  deriving DecidableEq, Repr

/-- The level that a setting asks for. Blanks around it do not count, and what is not understood
asks for nothing. -/
def LogLevel.ofSetting (setting : String) : LogLevel :=
  let word := String.ofList (Text.trim setting.toList)
  if word = "trace" ∨ word = "TRACE" ∨ word = "2" then elements
  else if word = "1" ∨ String.ofList (word.toList.map Char.toLower) = "true" then bindings
  else off

end TensorEval
