import TensorEval.Word
/-!
Tensor shapes: element counts that fit a machine word, the shapes that can be allocated, and
broadcasting aligned at the last dimension.
-/
namespace TensorEval

/-- The dimensions of a tensor, outermost first. Rank zero is the shape of a single element. -/
abbrev Shape := List Nat

/-- The product, if it fits a word without a sign. -/
def checkedMul (a b : Nat) : Option Nat :=
  if a * b < wordBound then some (a * b) else none

namespace Shape

def size (s : Shape) : Nat := s.foldr (· * ·) 1

/-- The number of elements, multiplied up from the left, if no product on the way leaves a word.
A zero dimension hides what follows it and not what comes before. -/
def elementCount (s : Shape) : Option Nat := s.foldlM checkedMul 1

def byteLength (s : Shape) (width : Nat) : Option Nat := do
  let count ← s.elementCount
  checkedMul count width

def nonzeroSize (s : Shape) : Nat := size (s.filter (· ≠ 0))

/-- Whether storage of this shape can be addressed: zero dimensions do not count. -/
def Allocatable (s : Shape) : Prop := nonzeroSize s < signedBound

instance (s : Shape) : Decidable s.Allocatable :=
  inferInstanceAs (Decidable (nonzeroSize s < signedBound))

/-- The common size of two aligned dimensions: they are equal or one of them is 1. -/
def joinDim (a b : Nat) : Option Nat :=
  if a = b ∨ b = 1 then some a
  else if a = 1 then some b
  else none

/-- Broadcasting of dimensions that are listed innermost first. A missing dimension is 1. -/
def joinReversed : List Nat → List Nat → Option (List Nat)
  | [], bs => some bs
  | as, [] => some as
  | a :: as, b :: bs => do
    let d ← joinDim a b
    let ds ← joinReversed as bs
    return d :: ds

def broadcast (a b : Shape) : Option Shape :=
  (joinReversed a.reverse b.reverse).map List.reverse

/-- Row-major position read by position `k` of the wider shape, dimensions innermost first. -/
def projectReversed : List Nat → List Nat → Nat → Nat
  | d :: ds, e :: es, k =>
    (if e = 1 then 0 else k % d) + e * projectReversed ds es (k / d)
  | _, _, _ => 0

/-- Row-major position in a tensor of shape `a` of the element that position `k` of the broadcast
shape `s` reads: dimensions of size 1 stay at index 0, missing ones are ignored. -/
def project (s a : Shape) (k : Nat) : Nat :=
  projectReversed s.reverse a.reverse k

private theorem foldlM_checkedMul {s : Shape} {a n : Nat} (h : s.foldlM checkedMul a = some n) :
    n = a * s.size := by
  induction s generalizing a with
  | nil => simpa [size, eq_comm] using h
  | cons d ds ih =>
    simp only [List.foldlM_cons, checkedMul] at h
    split at h
    · have := ih h
      simp [size, this, Nat.mul_assoc]
    · simp at h

theorem elementCount_eq_some {s : Shape} {n : Nat} (h : s.elementCount = some n) : n = s.size := by
  simpa using foldlM_checkedMul h

def text (s : Shape) : String := "[" ++ ", ".intercalate (s.map toString) ++ "]"

end Shape

end TensorEval
