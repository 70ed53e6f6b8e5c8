import TensorEval.Failure
/-!
Single JSON values as a text holds them: some are whole, some only look whole, some break off.
-/
namespace TensorEval.Json

/-- A number or a string of a text. -/
inductive Leaf (α : Type) where
  | whole (value : α)
  /-- The text goes on after it, but it has no value: a number out of range, or a string with half
  of a surrogate pair. -/
  | unreadable
  /-- The text is at fault here. The fault depends on whether the value is wanted or skipped. -/
  | broken (read skipped : Refusal)
  deriving DecidableEq, Repr

namespace Leaf

variable {α β : Type}

def read : Leaf α → Except Refusal α
  | whole value => .ok value
  | unreadable => .error .malformed
  | broken fault _ => .error fault

def skip : Leaf α → Except Refusal Unit
  | whole _ => .ok ()
  | unreadable => .ok ()
  | broken _ fault => .error fault

/-- The refusal of a reader that wants a value of another form. -/
def refuse : Leaf α → Refusal
  | whole _ => .unexpected
  | unreadable => .malformed
  | broken fault _ => fault

end Leaf

end TensorEval.Json
