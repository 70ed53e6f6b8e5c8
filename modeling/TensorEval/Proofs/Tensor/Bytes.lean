import TensorEval.Proofs.Tensor.Filling

/-! Tensors as bytes: every element as the bytes of its bits, least first, one element after the other. The bytes of a tensor
are read as that tensor, and other numbers of bytes are no tensor of its shape. -/
namespace TensorEval

namespace Carrier

theorem ofCode_code : ∀ {c : Carrier} (v : c.Value), c.ofCode (c.code v) = v
  | flag, v => by cases v <;> rfl
  | signed _, v => (BitVec.ofNat_toNat _ v).trans (BitVec.setWidth_eq v)
  | floating _, v => FloatWord.ofBits_bits v

end Carrier

namespace Element
variable {type : ElementType}

def lowBytes : Nat → Nat → List UInt8
  | 0, _ => []
  | count + 1, n => UInt8.ofNat n :: lowBytes count (n / 256)

private theorem length_lowBytes (count n : Nat) : (lowBytes count n).length = count := by
  induction count generalizing n with
  | zero => rfl
  | succ count ih => rw [lowBytes, List.length_cons, ih]

theorem littleEndian_lowBytes {count n : Nat} (h : n < Nat.pow 256 count) : littleEndian (lowBytes count n) = n := by
  induction count generalizing n with
  | zero => exact (Nat.lt_one_iff.mp h).symm
  | succ count ih =>
    have hrest : n / 256 < Nat.pow 256 count := Nat.div_lt_of_lt_mul (Nat.mul_comm _ _ ▸ h)
    rw [lowBytes, littleEndian, ih hrest, UInt8.toNat_ofNat']
    exact Nat.mod_add_div n 256

/-- The bytes of an element: one for a truth value, those of two's complement for an integer, and those of the word for a
floating-point number. -/
def toBytes (v : Element type) : List UInt8 := lowBytes type.byteWidth (type.carrier.code v)

private theorem length_toBytes (v : Element type) : (toBytes v).length = type.byteWidth := length_lowBytes _ _

private theorem code_lt (v : Element type) : type.carrier.code v < Nat.pow 256 type.byteWidth := by
  cases type with
  | i1 => cases v <;> decide
  | i8 | i16 | i32 | i64 => exact BitVec.isLt v
  | f16 | bf16 | f32 | f64 => exact FloatWord.bits_lt v

theorem ofBytes_toBytes (v : Element type) : ofBytes type (toBytes v) = v := by
  rw [ofBytes, toBytes, littleEndian_lowBytes (code_lt v), Carrier.ofCode_code]

end Element

theorem Shape.byteLength_eq_some_iff {shape : Shape} {width length : Nat} : shape.byteLength width = some length ↔
    ∃ count, shape.elementCount = some count ∧ length = count * width ∧ count * width < wordBound := by
  unfold byteLength checkedMul
  rw [Option.bind_eq_bind, Option.bind_eq_some_iff]
  refine exists_congr fun count => and_congr_right fun _ => ?_
  by_cases hword : count * width < wordBound <;> simp [hword, eq_comm]

namespace Tensor
variable {shape : Shape} {type : ElementType} {x : Tensor} {bytes : List UInt8}

private theorem pieces_flatMap {α β : Type} {width : Nat} {f : α → List β} (hf : ∀ a, (f a).length = width)
    (as : List α) :
    pieces width as.length (as.flatMap f) = as.map f := by
  induction as with
  | nil => rfl
  | cons a as ih =>
    rw [List.length_cons, List.flatMap_cons, pieces, List.take_left' (hf a), List.drop_left' (hf a), ih, List.map_cons]

def toBytes (x : Tensor) : List UInt8 := x.elements.flatMap Element.toBytes

private theorem length_toBytes (x : Tensor) : x.toBytes.length = x.shape.size * x.type.byteWidth := by
  rw [toBytes, List.length_flatMap, ← x.length_elements]
  simp [Element.length_toBytes]

/-- The bytes of a tensor are read as that tensor. -/
theorem ofBytes_toBytes (name : String) (hstored : x.shape.Allocatable) (hword : x.toBytes.length < wordBound) :
    ofBytes name x.shape x.type x.toBytes = .ok x := by
  rw [length_toBytes] at hword
  have hlength : x.shape.byteLength x.type.byteWidth = some (x.shape.size * x.type.byteWidth) :=
    Shape.byteLength_eq_some_iff.mpr ⟨_, hstored.elementCount_eq, rfl, hword⟩
  have helements : (pieces x.type.byteWidth x.shape.size x.toBytes).map (Element.ofBytes x.type) = x.elements := by
    rw [← x.length_elements, toBytes, pieces_flatMap Element.length_toBytes, List.map_map]
    exact (List.map_congr_left fun v _ => Element.ofBytes_toBytes v).trans (List.map_id _)
  unfold ofBytes
  rw [hlength]
  dsimp only
  rw [if_pos (length_toBytes x), if_pos hstored]
  simp only [helements]

section Length
variable {name : String} {expected : Nat}

private theorem ofBytes_of_none (h : shape.byteLength type.byteWidth = none) :
    ofBytes name shape type bytes = .error (.countOverflow shape) := by
  rw [ofBytes, h]

private theorem ofBytes_of_length_ne (h : shape.byteLength type.byteWidth = some expected)
    (hl : bytes.length ≠ expected) :
    ofBytes name shape type bytes = .error (.dataLength name type expected .bytes bytes.length) := by
  rw [ofBytes, h]
  exact if_neg hl

theorem exists_ofBytes_iff : (∃ x, ofBytes name shape type bytes = .ok x) ↔
    shape.Allocatable ∧ shape.byteLength type.byteWidth = some bytes.length := by
  unfold ofBytes
  cases hlength : shape.byteLength type.byteWidth with
  | none => simp
  | some expected =>
    rw [Option.some_inj, eq_comm (a := expected)]
    by_cases hl : bytes.length = expected <;> by_cases hstored : shape.Allocatable <;> simp [hl, hstored]

end Length

/-- A list of numbers and the bytes of its elements are one tensor. Bytes are a tensor if there are as many as the elements
of the shape take. If there are not, the error counts both, unless those of the shape are too many for a word. -/
theorem ofBytes_spec (name : String) (shape : Shape) (type : ElementType) :
    (∀ numbers x, ofNumbers name shape type numbers = .ok x → x.toBytes.length < wordBound →
      ofBytes name shape type x.toBytes = .ok x) ∧
    ∀ bytes : List UInt8,
      ((∃ x, ofBytes name shape type bytes = .ok x) ↔ shape.Allocatable ∧ ∃ count, shape.elementCount = some count ∧
        bytes.length = count * type.byteWidth ∧ count * type.byteWidth < wordBound) ∧
      (∀ count, shape.elementCount = some count → count * type.byteWidth < wordBound →
        bytes.length ≠ count * type.byteWidth →
        ofBytes name shape type bytes =
          .error (.dataLength name type (count * type.byteWidth) .bytes bytes.length) ∧
        Input.tensor name ⟨type, shape, none, some bytes⟩ =
          .error (.failed (.dataLength name type (count * type.byteWidth) .bytes bytes.length))) ∧
      ((∀ count, shape.elementCount = some count → wordBound ≤ count * type.byteWidth) →
        ofBytes name shape type bytes = .error (.countOverflow shape) ∧
        Input.tensor name ⟨type, shape, none, some bytes⟩ = .error (.failed (.countOverflow shape))) := by
  refine ⟨fun numbers x hx hword => ?_, fun bytes => ⟨?_, fun count hcount hword hl => ?_, fun hover => ?_⟩⟩
  · obtain ⟨rfl, rfl⟩ := Prod.mk.inj (form_ofNumbers hx)
    exact ofBytes_toBytes name (exists_ofNumbers_iff.mp ⟨x, hx⟩).1 hword
  · rw [exists_ofBytes_iff, Shape.byteLength_eq_some_iff]
  · have herror : ofBytes name shape type bytes = _ :=
      ofBytes_of_length_ne (Shape.byteLength_eq_some_iff.mpr ⟨count, hcount, rfl, hword⟩) hl
    exact ⟨herror, congrArg Outcome.ofExcept herror⟩
  · have hnone : shape.byteLength type.byteWidth = none := by
      refine Option.eq_none_iff_forall_ne_some.mpr fun length hlength => ?_
      obtain ⟨count, hcount, -, hword⟩ := Shape.byteLength_eq_some_iff.mp hlength
      exact Nat.not_lt.mpr (hover count hcount) hword
    have herror : ofBytes name shape type bytes = _ := ofBytes_of_none hnone
    exact ⟨herror, congrArg Outcome.ofExcept herror⟩

/-- A positive and a negative number, the bytes of both, and all of these but the last. -/
theorem ofBytes_spec_pair :
    ∃ x, ofNumbers "x" [2] .i16 [.ofInt .binary64 1, .ofInt .binary64 (-2)] = .ok x ∧
      x.toBytes = [1, 0, 254, 255] ∧ ofBytes "x" [2] .i16 [1, 0, 254, 255] = .ok x ∧
      ofBytes "x" [2] .i16 [1, 0, 254] = .error (.dataLength "x" .i16 4 .bytes 3) := by
  obtain ⟨hagree, hbytes⟩ := ofBytes_spec "x" [2] .i16
  have hnumbers : ofNumbers "x" [2] .i16 [.ofInt .binary64 1, .ofInt .binary64 (-2)] = _ :=
    ofNumbers_eq_ok "x" .i16 (by decide) rfl
  have hlisted : toBytes ⟨.i16, [2], [.ofInt .binary64 1, .ofInt .binary64 (-2)].map (Element.ofNumber .i16), rfl⟩ =
      [1, 0, 254, 255] := by decide +kernel
  refine ⟨_, hnumbers, hlisted, ?_, ?_⟩
  · rw [← hlisted]
    exact hagree _ _ hnumbers (hlisted ▸ by decide)
  · exact ((hbytes [1, 0, 254]).2.1 2 rfl (by decide) (by decide)).1

/-- A shape with a number of elements whose bytes are one too many for a word. -/
theorem ofBytes_not_dataLength :
    Shape.elementCount [2305843009213693952] = some 2305843009213693952 ∧
      ([] : List UInt8).length ≠ 2305843009213693952 * ElementType.f64.byteWidth ∧
      ofBytes "" [2305843009213693952] .f64 [] = .error (.countOverflow [2305843009213693952]) ∧
      ofBytes "" [2305843009213693952] .f64 [] ≠ .error (.dataLength "" .f64
        (2305843009213693952 * ElementType.f64.byteWidth) .bytes ([] : List UInt8).length) := by
  have herror : ofBytes "" [2305843009213693952] .f64 [] = .error (.countOverflow [2305843009213693952]) := rfl
  refine ⟨rfl, by decide, herror, ?_⟩
  rw [herror]
  exact nofun

end Tensor

end TensorEval
