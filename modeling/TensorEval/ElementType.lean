/-!
Element types of tensors: their spelling, storage width and promotion.
-/
namespace TensorEval

/-- An element type, named by its spelling in the intermediate representation. -/
inductive ElementType where
  | i1 | i8 | i16 | i32 | i64 | f16 | bf16 | f32 | f64
  deriving DecidableEq, Repr

/-- Promotion categories, weakest first. A stronger category always wins. -/
inductive Category where
  | boolean | integer | float
  deriving DecidableEq, Repr

def Category.rank : Category → Nat
  | boolean => 0
  | integer => 1
  | float => 2

instance : LE Category := ⟨fun a b => a.rank ≤ b.rank⟩
instance : LT Category := ⟨fun a b => a.rank < b.rank⟩
instance (a b : Category) : Decidable (a ≤ b) := inferInstanceAs (Decidable (a.rank ≤ b.rank))
instance (a b : Category) : Decidable (a < b) := inferInstanceAs (Decidable (a.rank < b.rank))

namespace ElementType

def all : List ElementType := [i1, i8, i16, i32, i64, f16, bf16, f32, f64]

def name : ElementType → String
  | i1 => "i1"
  | i8 => "i8"
  | i16 => "i16"
  | i32 => "i32"
  | i64 => "i64"
  | f16 => "f16"
  | bf16 => "bf16"
  | f32 => "f32"
  | f64 => "f64"

/-- The element type of a spelling. `index` is another spelling of `i64`. -/
def ofName? (spelling : String) : Option ElementType :=
  if spelling = "index" then some i64 else all.find? (·.name = spelling)

def byteWidth : ElementType → Nat
  | i1 => 1
  | i8 => 1
  | i16 => 2
  | i32 => 4
  | i64 => 8
  | f16 => 2
  | bf16 => 2
  | f32 => 4
  | f64 => 8

def category : ElementType → Category
  | i1 => .boolean
  | i8 | i16 | i32 | i64 => .integer
  | f16 | bf16 | f32 | f64 => .float

def isFloat (t : ElementType) : Bool := t.category = .float

/-- The common type of two element types: a stronger category wins outright, within a category
the wider type wins, and the two 16-bit float types meet at `f32`. -/
def promote (a b : ElementType) : ElementType :=
  if a = b then a
  else if b.category < a.category then a
  else if a.category < b.category then b
  else if a.byteWidth = b.byteWidth then f32
  else if b.byteWidth < a.byteWidth then a
  else b

theorem ofName?_name (t : ElementType) : ofName? t.name = some t := by
  cases t <;> decide

theorem promote_comm (a b : ElementType) : promote a b = promote b a := by
  cases a <;> cases b <;> rfl

end ElementType

/-- The operand family of an elementwise kernel. -/
inductive Domain where
  | float | integer
  deriving DecidableEq, Repr

namespace Domain

/-- Whether operands of type `t` belong to the family. `i1` counts as an integer type. -/
def accepts (d : Domain) (t : ElementType) : Bool :=
  match d with
  | float => t.isFloat
  | integer => !t.isFloat

def description : Domain → String
  | float => "float"
  | integer => "integer"

end Domain

end TensorEval
