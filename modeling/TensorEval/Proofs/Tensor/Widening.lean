import TensorEval.Proofs.Element.Widening
import TensorEval.Proofs.Tensor.Bits

/-! Casts that lose nothing: those to a type that holds all values of the type of a tensor, and to the common type of two
tensors with dimensions whose types are of one category. -/
namespace TensorEval.Tensor

private theorem sameBits_convert_type (x : Tensor) : (x.convert x.type).sameBits x = true := by
  obtain ⟨type, shape, elements, hl⟩ := x
  refine (sameBits_mk_iff _ hl).mpr ?_
  rw [elementsAs, List.forall₂_map_left_iff, List.forall₂_same]
  exact fun v _ => Element.sameBits_convert_self v

private theorem sameBits_convert_convert_iff (x : Tensor) (type : ElementType) :
    ((x.convert type).convert x.type).sameBits x = true ↔
      ∀ v ∈ x.elements, x.type.carrier.sameBits (Element.convert x.type (Element.convert type v)) v = true := by
  obtain ⟨s, shape, elements, hl⟩ := x
  have hl' : ((elements.map (Element.convert type)).map (Element.convert s)).length = shape.size := by simp [hl]
  refine (sameBits_mk_iff hl' hl).trans ?_
  rw [List.map_map, List.forall₂_map_left_iff, List.forall₂_same]
  rfl

/-- A cast converts every element, up to the bits of NaNs. -/
theorem sameBits_cast_convert (x : Tensor) (type : ElementType) : (x.cast type).sameBits (x.convert type) = true := by
  by_cases htype : x.type = type
  · subst htype
    rw [cast_of_type_eq rfl]
    exact sameBits_equivalence.symm (sameBits_convert_type x)
  · rw [cast_of_type_ne htype]
    exact sameBits_refl _

/-- Elements are converted once more as they are taken up, which changes nothing but the payload of NaNs. -/
private theorem sameBits_throughElements (x : Tensor) (type : ElementType) :
    (x.throughElements type).sameBits (x.cast type) = true :=
  sameBits_equivalence.trans (sameBits_convert_type (x.convert type))
    (sameBits_equivalence.symm (sameBits_cast_convert x type))

/-- A tensor comes back from a type that holds all values of its own. -/
theorem sameBits_cast_cast {x : Tensor} {type : ElementType} (h : x.type.carrier.FitsIn type.carrier) :
    ((x.cast type).cast x.type).sameBits x = true := by
  by_cases htype : x.type = type
  · rw [cast_of_type_eq htype, cast_of_type_eq rfl]
    exact sameBits_refl x
  · rw [cast_of_type_ne htype, cast_of_type_ne (Ne.symm htype)]
    exact (sameBits_convert_convert_iff x type).mpr fun v _ => Element.sameBits_convert_convert h v

/-- The type of a tensor that comes back from another type, whatever its elements are, has no values but those of the
other type. -/
private theorem fitsIn_of_sameBits_cast_cast {s t : ElementType}
    (h : ∀ x : Tensor, x.type = s → ((x.cast t).cast s).sameBits x = true) : s.carrier.FitsIn t.carrier := by
  by_cases htype : s = t
  · subst htype
    cases s <;> decide
  · let x : Tensor := ⟨s, [], [Element.hardest s], rfl⟩
    have hback := h x rfl
    rw [cast_of_type_ne (x := x) htype, cast_of_type_ne (Ne.symm htype)] at hback
    have hhardest := (sameBits_convert_convert_iff x t).mp hback _ (List.mem_singleton_self _)
    exact Element.fitsIn_of_sameBits_hardest hhardest

private theorem resultType_of_rank {x y : Tensor} (hx : x.rank ≠ 0) (hy : y.rank ≠ 0) :
    resultType x y = x.type.promote y.type := by
  rw [resultType, if_neg fun h => hx h.1, if_neg fun h => hy h.2.1]

private theorem fitsIn_promote {s t : ElementType} (h : s.category = t.category) :
    s.carrier.FitsIn (s.promote t).carrier := by
  revert h
  cases s <;> cases t <;> decide

/-- The types that a tensor comes back from, with the bits that it had, are those that hold all values of its own type.
The common type of two tensors with dimensions is one of them, if the types of both are of one category. To cast a tensor is
to take out its elements in the other type and to make a tensor of them. -/
theorem cast_keeps_iff_fitsIn :
    (∀ s t : ElementType, (∀ x : Tensor, x.type = s → ((x.cast t).cast s).sameBits x = true) ↔
      s.carrier.FitsIn t.carrier) ∧
    (∀ x y : Tensor, x.type.category = y.type.category → x.rank ≠ 0 → y.rank ≠ 0 →
      ((x.cast (resultType x y)).cast x.type).sameBits x = true ∧
      ((y.cast (resultType x y)).cast y.type).sameBits y = true) ∧
    ∀ (x : Tensor) (type : ElementType), (x.throughElements type).sameBits (x.cast type) = true := by
  refine ⟨fun s t => ⟨fitsIn_of_sameBits_cast_cast, fun h x hx => ?_⟩, fun x y h hx hy => ?_, sameBits_throughElements⟩
  · subst hx
    exact sameBits_cast_cast h
  · rw [resultType_of_rank hx hy]
    refine ⟨sameBits_cast_cast (fitsIn_promote h), sameBits_cast_cast ?_⟩
    rw [ElementType.promote_comm]
    exact fitsIn_promote h.symm

/-- A column of one 16-bit float format and a row of the other one, with a NaN and the smallest number. -/
theorem cast_keeps_column_row :
    let column : Tensor := ⟨.f16, [2, 1], [FloatWord.ofBits .binary16 0x7C01, FloatWord.ofBits .binary16 1], rfl⟩
    let row : Tensor := ⟨.bf16, [1], [FloatWord.ofBits .bfloat16 1], rfl⟩
    resultType column row = .f32 ∧ ((column.cast .f32).cast .f16).sameBits column = true ∧
      ((row.cast .f32).cast .bf16).sameBits row = true := by
  intro column row
  obtain ⟨hcolumn, hrow⟩ := cast_keeps_iff_fitsIn.2.1 column row rfl (by decide) (by decide)
  exact ⟨rfl, hcolumn, hrow⟩

end TensorEval.Tensor
