import TensorEval.Case.Basic
import TensorEval.Proofs.Outcome
import TensorEval.Proofs.Tensor.Storage
import TensorEval.Tensor.Elementwise

/-! The element type and the shape of tensors: what is built has those that were asked for, and the size that was
checked for them. Whether it is built, and what is wrong if it is not, depends on types, shapes and lengths only. -/
namespace TensorEval

def Tensor.form (x : Tensor) : ElementType × Shape := (x.type, x.shape)

/-- What is declared of an input, without its elements: the type, the shape, the form of its data and their length. -/
def Input.form (input : Input) : ElementType × Shape × Option Nat × Option Nat :=
  (input.type, input.shape, input.values.map List.length, input.data.map List.length)

namespace Tensor

theorem form_full {shape : Shape} {type : ElementType} {fill : Fill} {x : Tensor} (h : full shape type fill = .ok x) :
    x.form = (type, shape) := by
  unfold full at h
  split at h
  · obtain rfl := Except.ok.inj h
    rfl
  · cases h

theorem form_ofNumbers {name : String} {shape : Shape} {type : ElementType} {numbers : List Double} {x : Tensor}
    (h : ofNumbers name shape type numbers = .ok x) : x.form = (type, shape) := by
  unfold ofNumbers at h
  split at h
  · cases h
  split at h
  · split at h
    · obtain rfl := Except.ok.inj h
      rfl
    · cases h
  · cases h

private theorem form_ofBytes {name : String} {shape : Shape} {type : ElementType} {bytes : List UInt8} {x : Tensor}
    (h : ofBytes name shape type bytes = .ok x) : x.form = (type, shape) := by
  unfold ofBytes at h
  split at h
  · cases h
  split at h
  · split at h
    · obtain rfl := Except.ok.inj h
      rfl
    · cases h
  · cases h

theorem form_binary {op : Operator} {x y z : Tensor} (h : x.binary op y = .ok z) :
    z.type = resultType x y ∧ Shape.broadcast x.shape y.shape = some z.shape := by
  unfold binary at h
  split at h
  · cases h
  split at h
  · rename_i hshape _
    obtain rfl := Except.ok.inj h
    exact ⟨type_cast x _, hshape⟩
  · cases h

/-- An operator fails on two tensors exactly if no shape that can be addressed is common to them. -/
theorem binary_eq_error {op : Operator} {x y : Tensor} {failure : Failure} :
    x.binary op y = .error failure ↔ failure = .incompatibleShapes x.shape y.shape ∧
      ∀ s, Shape.broadcast x.shape y.shape = some s → ¬s.Allocatable := by
  unfold binary
  cases Shape.broadcast x.shape y.shape with
  | none => simp [eq_comm]
  | some s =>
    by_cases hs : s.Allocatable
    · simp [hs]
    · simp [hs, eq_comm]

theorem exists_binary_iff {op : Operator} {x y : Tensor} {s : Shape} (h : Shape.broadcast x.shape y.shape = some s) :
    (∃ z, x.binary op y = .ok z) ↔ s.Allocatable := by
  cases hz : x.binary op y with
  | ok z =>
    refine iff_of_true ⟨z, rfl⟩ ?_
    by_contra hs
    have herror : x.binary op y = .error (.incompatibleShapes x.shape y.shape) :=
      binary_eq_error.mpr ⟨rfl, fun s' hs' => Option.some.inj (h.symm.trans hs') ▸ hs⟩
    exact nomatch hz.symm.trans herror
  | error failure =>
    obtain ⟨-, hs⟩ := binary_eq_error.mp hz
    exact iff_of_false nofun (hs s h)

private theorem byteLength_eq {x : Tensor} {length : Nat} (h : x.shape.byteLength x.type.byteWidth = some length) :
    x.byteLength = length := by
  obtain ⟨count, hcount, hmul⟩ := Option.bind_eq_some_iff.mp h
  unfold checkedMul at hmul
  split at hmul
  · obtain rfl := Option.some.inj hmul
    rw [byteLength, elementCount, x.length_elements, Shape.elementCount_eq_some hcount]
  · cases hmul

/-- Of two limits the smaller one lets through the tensors that it holds, if the larger one lets them through. -/
theorem checkSize_iff_of_le {limit limit' : Nat} (hle : limit ≤ limit') (x : Tensor) :
    checkSize limit x.shape x.type = .ok () ↔ checkSize limit' x.shape x.type = .ok () ∧ x.byteLength ≤ limit := by
  rw [checkSize_eq_ok_iff, checkSize_eq_ok_iff]
  constructor
  · rintro ⟨length, hlength, hbound⟩
    exact ⟨⟨length, hlength, Nat.le_trans hbound hle⟩, byteLength_eq hlength ▸ hbound⟩
  · rintro ⟨⟨length, hlength, -⟩, hbound⟩
    exact ⟨length, hlength, byteLength_eq hlength ▸ hbound⟩

/-! ### Tensors of the same form -/

private theorem ofNumbers_of_none {name : String} {shape : Shape} {type : ElementType} {numbers : List Double}
    (hcount : shape.elementCount = none) : ofNumbers name shape type numbers = .error (.countOverflow shape) := by
  unfold ofNumbers
  split
  · rfl
  · simp_all

private theorem map_form_ofNumbers {name : String} {shape : Shape} {type : ElementType} {numbers : List Double}
    {count : Nat} (hcount : shape.elementCount = some count) :
    (ofNumbers name shape type numbers).map form =
      if numbers.length = count then
        if shape.Allocatable then .ok (type, shape) else .error (.countOverflow shape)
      else .error (.dataLength name type count .elements numbers.length) := by
  unfold ofNumbers
  split
  · simp_all
  · rename_i expected hexpected
    obtain rfl := Option.some.inj (hcount.symm.trans hexpected)
    split
    · split <;> rfl
    · rfl

private theorem ofNumbers_map_form (name : String) (shape : Shape) (type : ElementType) {numbers numbers' : List Double}
    (h : numbers.length = numbers'.length) :
    (ofNumbers name shape type numbers).map form = (ofNumbers name shape type numbers').map form := by
  cases hcount : shape.elementCount with
  | none => rw [ofNumbers_of_none hcount, ofNumbers_of_none hcount]
  | some count => rw [map_form_ofNumbers hcount, map_form_ofNumbers hcount, h]

private theorem ofBytes_map_form (name : String) (shape : Shape) (type : ElementType) {bytes bytes' : List UInt8}
    (h : bytes.length = bytes'.length) :
    (ofBytes name shape type bytes).map form = (ofBytes name shape type bytes').map form := by
  unfold ofBytes
  rw [h]
  split
  · rfl
  split
  · split <;> rfl
  · rfl

theorem resultType_of_form {x x' y y' : Tensor} (hx : x.form = x'.form) (hy : y.form = y'.form) :
    resultType x y = resultType x' y' := by
  obtain ⟨type, shape, _, _⟩ := x
  obtain ⟨type', shape', _, _⟩ := y
  obtain ⟨rfl, rfl⟩ : type = x'.type ∧ shape = x'.shape := Prod.mk.inj hx
  obtain ⟨rfl, rfl⟩ : type' = y'.type ∧ shape' = y'.shape := Prod.mk.inj hy
  rfl

theorem binary_map_form {op : Operator} {x x' y y' : Tensor} (hx : x.form = x'.form) (hy : y.form = y'.form) :
    (x.binary op y).map form = (x'.binary op y').map form := by
  have htype := resultType_of_form hx hy
  obtain ⟨type, shape, _, _⟩ := x
  obtain ⟨type', shape', _, _⟩ := y
  obtain ⟨rfl, rfl⟩ : type = x'.type ∧ shape = x'.shape := Prod.mk.inj hx
  obtain ⟨rfl, rfl⟩ : type' = y'.type ∧ shape' = y'.shape := Prod.mk.inj hy
  unfold binary
  dsimp only
  split
  · rfl
  split
  · exact congrArg Except.ok (Prod.ext ((type_cast _ _).trans (htype.trans (type_cast _ _).symm)) rfl)
  · rfl

end Tensor

theorem Input.form_tensor {name : String} {input : Input} {x : Tensor} (h : input.tensor name = .ok x) :
    x.form = (input.type, input.shape) := by
  unfold tensor at h
  split at h
  · exact Tensor.form_ofNumbers (Outcome.ofExcept_eq_ok.mp h)
  · exact Tensor.form_ofBytes (Outcome.ofExcept_eq_ok.mp h)
  · split at h
    · cases h
    · exact Tensor.form_full h
  · cases h

/-- What tensor there is for an input, or what is wrong with it, depends on its form. -/
theorem Input.tensor_map_form {name : String} {input input' : Input} (h : input.form = input'.form) :
    (input.tensor name).map Tensor.form = (input'.tensor name).map Tensor.form := by
  obtain ⟨type, shape, values, data⟩ := input
  obtain ⟨type', shape', values', data'⟩ := input'
  simp only [form, Prod.mk.injEq] at h
  obtain ⟨rfl, rfl, hvalues, hdata⟩ := h
  cases values with
  | none =>
    obtain rfl : values' = none := Option.map_eq_none_iff.mp hvalues.symm
    cases data with
    | none =>
      obtain rfl : data' = none := Option.map_eq_none_iff.mp hdata.symm
      rfl
    | some bytes =>
      obtain ⟨bytes', rfl, hlength⟩ := Option.map_eq_some_iff.mp hdata.symm
      exact except_mapError_map_congr (Tensor.ofBytes_map_form name shape type hlength.symm)
  | some values =>
    obtain ⟨values', rfl, hlength⟩ := Option.map_eq_some_iff.mp hvalues.symm
    cases data with
    | none =>
      obtain rfl : data' = none := Option.map_eq_none_iff.mp hdata.symm
      exact except_mapError_map_congr (Tensor.ofNumbers_map_form name shape type hlength.symm)
    | some bytes =>
      obtain ⟨bytes', rfl, -⟩ := Option.map_eq_some_iff.mp hdata.symm
      rfl

end TensorEval
