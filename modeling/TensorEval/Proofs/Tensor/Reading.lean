import TensorEval.Proofs.Tensor.Broadcast
import TensorEval.Proofs.Tensor.Elementwise

/-! Tensors as functions of an index. An operand has an element, converted to a given type, at every index of a shape that
it stretches to; a tensor is given by its elements at the indices of its shape, and the result of an operator at an index by
the elements of its operands there. -/
namespace TensorEval.Tensor
variable {x y z : Tensor} {type : ElementType} {s : Shape} {index : List Nat}

def elementAs (type : ElementType) (x : Tensor) (index : List Nat) : Element type :=
  match x.elementAt? index with
  | some ⟨_, v⟩ => Element.convert type v
  | none => Element.zero type

/-- The element that an operand is read at for an index of a wider shape, converted to a type. -/
def readAs (type : ElementType) (x : Tensor) (index : List Nat) : Element type :=
  x.elementAs type (x.shape.aligned index)

private theorem exists_elementAt? (h : x.shape.Indexes index) :
    ∃ v : Element x.type, x.elementAt? index = some ⟨x.type, v⟩ :=
  ⟨_, elementAt?_eq h (List.getElem?_eq_getElem (x.length_elements ▸ Shape.position_lt h))⟩

theorem elementAs_eq {type' : ElementType} {v : Element type'} (h : x.elementAt? index = some ⟨type', v⟩) :
    x.elementAs type index = Element.convert type v := by
  rw [elementAs, h]

theorem readAs_self (h : x.shape.Indexes index) : x.readAs type index = x.elementAs type index := by
  rw [readAs, Shape.aligned_self h]

/-- An operand has an element of its own at an index of a wider shape, and is read as what that is in another type. -/
theorem exists_readAs (hx : x.shape.StretchesTo s) (h : s.Indexes index) :
    ∃ v : Element x.type, ∀ type, x.readAs type index = Element.convert type v := by
  obtain ⟨v, hv⟩ := exists_elementAt? (hx.indexes_aligned h)
  exact ⟨v, fun type => elementAs_eq hv⟩

private theorem elementAt?_convert (type : ElementType) (x : Tensor) (index : List Nat) :
    (x.convert type).elementAt? index = (x.elementAt? index).map fun ⟨_, v⟩ => ⟨type, Element.convert type v⟩ := by
  by_cases h : x.shape.Indexes index
  · have hv := List.getElem?_eq_getElem (x.length_elements ▸ Shape.position_lt h)
    rw [elementAt?_eq h hv]
    exact elementAt?_eq (x := x.convert type) h ((List.getElem?_map ..).trans (congrArg (Option.map _) hv))
  · rw [elementAt?, elementAt?, if_neg h]
    exact if_neg h

theorem cast_of_type_eq (h : x.type = type) : x.cast type = x := if_pos h

theorem cast_of_type_ne (h : x.type ≠ type) : x.cast type = x.convert type := if_neg h

theorem shape_cast (x : Tensor) (type : ElementType) : (x.cast type).shape = x.shape := by
  unfold cast
  split <;> rfl

/-- A tensor that has been cast has the elements that are read of it in the new type, up to the bits of NaNs. -/
theorem sameBits_elementAs_cast (type : ElementType) (x : Tensor) (index : List Nat) :
    type.carrier.sameBits ((x.cast type).elementAs type index) (x.elementAs type index) = true := by
  unfold cast
  split
  · exact Carrier.sameBits_refl _ _
  · unfold elementAs
    rw [elementAt?_convert]
    cases x.elementAt? index with
    | none => exact Carrier.sameBits_refl _ _
    | some v => exact Element.sameBits_convert_self _

theorem sameBits_readAs_cast (type : ElementType) (x : Tensor) (index : List Nat) :
    type.carrier.sameBits ((x.cast type).readAs type index) (x.readAs type index) = true := by
  unfold readAs
  rw [shape_cast]
  exact sameBits_elementAs_cast type x _

/-- Tensors of one type and shape have the same bits if they have them at every index. -/
theorem sameBits_of_elementAs (hx : x.type = type) (hy : y.type = type) (hshape : x.shape = y.shape)
    (h : ∀ index, x.shape.Indexes index →
      type.carrier.sameBits (x.elementAs type index) (y.elementAs type index) = true) : x.sameBits y = true := by
  obtain ⟨_, s, xs, hxs⟩ := x
  obtain ⟨_, _, ys, hys⟩ := y
  dsimp only at hx hy hshape
  subst hx hy hshape
  rw [sameBits_mk_iff, List.forall₂_iff_get]
  refine ⟨hxs.trans hys.symm, fun k hkx hky => ?_⟩
  obtain ⟨index, hindex, rfl⟩ := Shape.exists_position_eq (hxs ▸ hkx)
  have hsame := h index hindex
  rw [elementAs_eq (elementAt?_eq hindex (List.getElem?_eq_getElem hkx)),
    elementAs_eq (elementAt?_eq hindex (List.getElem?_eq_getElem hky))] at hsame
  exact Carrier.sameBits_trans (Carrier.sameBits_symm (Element.sameBits_convert_self _))
    (Carrier.sameBits_trans hsame (Element.sameBits_convert_self _))

section Binary
variable {op : Operator}

theorem resultType_of_type (hx : x.type = type) (hy : y.type = type) : resultType x y = type := by
  unfold resultType
  rw [hx, hy, ElementType.promote, if_pos rfl, ite_self, ite_self]

private theorem sameBits_elementAs_of_cast {v : Element type} (h : (x.cast type).elementAt? index = some ⟨type, v⟩) :
    type.carrier.sameBits v (x.elementAs type index) = true := by
  refine Carrier.sameBits_trans (Carrier.sameBits_symm (Element.sameBits_convert_self v)) ?_
  rw [← elementAs_eq h]
  exact sameBits_elementAs_cast type x index

theorem allocatable_of_binary (hz : x.binary op y = .ok z) : z.shape.Allocatable :=
  (exists_binary_iff (form_binary hz).2).mp ⟨z, hz⟩

/-- Whether an operator has a result depends on the shapes only. -/
theorem exists_binary_iff_exists_shape :
    (∃ z, x.binary op y = .ok z) ↔ ∃ s, Shape.broadcast x.shape y.shape = some s ∧ s.Allocatable :=
  ⟨fun ⟨z, hz⟩ => ⟨z.shape, (form_binary hz).2, allocatable_of_binary hz⟩, fun ⟨_, hs, hstored⟩ =>
    (exists_binary_iff hs).mpr hstored⟩

/-- The operator is applied to what its operands are read as in the common type. -/
theorem readAs_binary (hz : x.binary op y = .ok z) (hs : z.shape.StretchesTo s) (h : s.Indexes index)
    (type : ElementType) : z.readAs type index = Element.convert type ((resultType x y).carrier.combine op
      (x.readAs (resultType x y) index) (y.readAs (resultType x y) index)) := by
  obtain ⟨hshape, -, helement⟩ := elementwise_binary hz
  obtain ⟨hx, hy⟩ := Shape.stretchesTo_of_broadcast hshape
  obtain ⟨v, w, hv, hw, hzv⟩ := helement _ (hs.indexes_aligned h)
  rw [hx.aligned_aligned hs h] at hv
  rw [hy.aligned_aligned hs h] at hw
  rw [readAs, elementAs_eq hzv, Carrier.combine_congr op (sameBits_elementAs_of_cast hv) (sameBits_elementAs_of_cast hw)]
  rfl

end Binary

end TensorEval.Tensor
