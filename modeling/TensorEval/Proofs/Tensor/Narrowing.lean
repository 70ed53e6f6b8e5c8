import TensorEval.Proofs.Element.Laws
import TensorEval.Proofs.Tensor.Formula

/-! Narrower integers. The lowest bits of a sum or a product depend on the lowest bits of the operands only, so the result
may be narrowed, or the operands before they are added or multiplied. -/
namespace TensorEval.Tensor
variable {op : Operator} {type : ElementType} {x y z : Tensor}

private theorem category_resultType (hx : x.type.category = .integer) (hy : y.type.category = .integer) :
    (resultType x y).category = .integer := by
  have hpromote {a b : ElementType} (ha : a.category = .integer) (hb : b.category = .integer) :
      (a.promote b).category = .integer := by
    revert ha hb
    cases a <;> cases b <;> decide
  unfold resultType
  split
  · exact hy
  split
  · exact hx
  · exact hpromote hx hy

/-- Casting keeps the shapes, and so the failures. -/
private theorem exists_binary_cast_iff (op : Operator) (type : ElementType) (x y : Tensor) :
    (∃ z, (x.cast type).binary op (y.cast type) = .ok z) ↔ ∃ z, x.binary op y = .ok z := by
  rw [exists_binary_iff_exists_shape, exists_binary_iff_exists_shape, shape_cast, shape_cast]

private theorem readAs_narrowed (hop : op = .add ∨ op = .mul) (hx : x.type.category = .integer)
    (hy : y.type.category = .integer)
    (htype : type.category = .integer) (hwidth : type.byteWidth ≤ (resultType x y).byteWidth) (hz : x.binary op y = .ok z)
    {index : List Nat} (h : z.shape.Indexes index) :
    z.elementAs type index = type.carrier.combine op (x.readAs type index) (y.readAs type index) := by
  have hcommon := category_resultType hx hy
  obtain ⟨hxs, hys⟩ := Shape.stretchesTo_of_broadcast (form_binary hz).2
  obtain ⟨v, hv⟩ := exists_readAs hxs h
  obtain ⟨w, hw⟩ := exists_readAs hys h
  rw [← readAs_self h, readAs_binary hz (.refl _) h, Element.convert_combine hcommon htype hwidth hop, hv, hw, hv, hw,
    Element.convert_convert hcommon htype hwidth, Element.convert_convert hcommon htype hwidth]

/-- The sum or the product of integer tensors, narrowed to a type that is no wider than that of the result, is the sum or
the product of the tensors in that type. -/
theorem agree_cast_binary (hop : op = .add ∨ op = .mul) (hx : x.type.category = .integer)
    (hy : y.type.category = .integer) (htype : type.category = .integer)
    (hwidth : type.byteWidth ≤ (resultType x y).byteWidth) :
    Agree ((x.binary op y).map (cast · type)) ((x.cast type).binary op (y.cast type)) := by
  apply agree_of_exists_iff
  · rw [exists_binary_cast_iff]
    simp only [except_map_eq_ok]
    exact ⟨fun ⟨_, z, hz, _⟩ => ⟨z, hz⟩, fun ⟨z, hz⟩ => ⟨_, z, hz, rfl⟩⟩
  · intro u z' hu hz'
    obtain ⟨z, hz, rfl⟩ := except_map_eq_ok.mp hu
    have htype' : resultType (x.cast type) (y.cast type) = type := resultType_of_type (type_cast x type) (type_cast y type)
    have hshape : z.shape = z'.shape := by
      have hbroadcast := (form_binary hz').2
      rw [shape_cast, shape_cast, (form_binary hz).2] at hbroadcast
      exact Option.some.inj hbroadcast
    refine sameBits_of_elementAs (type_cast z type) ((form_binary hz').1.trans htype')
      ((shape_cast z type).trans hshape) fun index h => ?_
    rw [shape_cast] at h
    refine Carrier.sameBits_trans (sameBits_elementAs_cast type z index) ?_
    rw [readAs_narrowed hop hx hy htype hwidth hz h, ← readAs_self (hshape ▸ h), readAs_binary hz' (.refl _) (hshape ▸ h),
      htype', Carrier.combine_congr op (sameBits_readAs_cast type x index) (sameBits_readAs_cast type y index)]
    exact Carrier.sameBits_symm (Element.sameBits_convert_self _)

/-- A single word is wrapped to the type of a row of shorter words, and the products are wrapped once more to bytes. -/
theorem agree_cast_binary_bytes :
    let row : Tensor := ⟨.i16, [2], [300#16, 65535#16], rfl⟩
    let word : Tensor := ⟨.i64, [], [4294967299#64], rfl⟩
    Agree ((row.binary .mul word).map (cast · .i8)) ((row.cast .i8).binary .mul (word.cast .i8)) := by
  intro row word
  exact agree_cast_binary (Or.inr rfl) rfl rfl rfl (by decide)

end TensorEval.Tensor
