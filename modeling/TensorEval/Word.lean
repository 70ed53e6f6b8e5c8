/-!
The bounds of machine words of 64 bits.
-/
namespace TensorEval

/-- Words without a sign lie below this bound, the power of two of 64. -/
def wordBound : Nat := 0x10000000000000000

/-- Words with a sign lie below this bound, the power of two of 63, and not below its negative. -/
def signedBound : Nat := 0x8000000000000000

end TensorEval
