import TensorEval.Proofs.Tensor.Reading

/-! Tensors of the same bits. They are those that are equal once the payloads of NaNs are gone, so that to have the same
bits is an equivalence. Casts and elementwise operators take tensors of the same bits to tensors of the same bits. -/
namespace TensorEval

namespace Carrier

/-- The element with the quiet NaN in place of any NaN. -/
def withoutPayload : (c : Carrier) → c.Value → c.Value
  | flag, v => v
  | signed _, v => v
  | floating F, v => if v.isNaN then .nan F else v

private theorem withoutPayload_of_isNaN {F : FloatFormat} {v : FloatWord F} (h : v.isNaN = true) :
    (floating F).withoutPayload v = FloatWord.nan F := if_pos h

private theorem withoutPayload_of_not_isNaN {c : Carrier} {v : c.Value} (h : c.isNaN v = false) :
    c.withoutPayload v = v := by
  cases c with
  | flag | signed width => rfl
  | floating F => exact if_neg fun hnan => Bool.false_ne_true (h.symm.trans hnan)

private theorem isNaN_withoutPayload (c : Carrier) (v : c.Value) : c.isNaN (c.withoutPayload v) = c.isNaN v := by
  cases hnan : c.isNaN v with
  | false => rw [withoutPayload_of_not_isNaN hnan, hnan]
  | true =>
    cases c with
    | flag | signed width => exact absurd hnan Bool.false_ne_true
    | floating F =>
      rw [withoutPayload_of_isNaN hnan]
      cases F <;> rfl

theorem sameBits_iff_withoutPayload {c : Carrier} {v w : c.Value} :
    c.sameBits v w = true ↔ c.withoutPayload v = c.withoutPayload w := by
  rw [sameBits_iff]
  constructor
  · rintro (rfl | ⟨hv, hw⟩)
    · rfl
    · cases c with
      | flag | signed width => exact absurd hv Bool.false_ne_true
      | floating F => rw [withoutPayload_of_isNaN hv, withoutPayload_of_isNaN hw]
  · intro h
    have hnan : c.isNaN v = c.isNaN w := by rw [← isNaN_withoutPayload c v, h, isNaN_withoutPayload]
    cases hw : c.isNaN w with
    | false =>
      rw [withoutPayload_of_not_isNaN (hnan.trans hw), withoutPayload_of_not_isNaN hw] at h
      exact Or.inl h
    | true => exact Or.inr ⟨hnan.trans hw, rfl⟩

end Carrier

namespace Tensor
variable {x x' y y' : Tensor}

def withoutPayloads (x : Tensor) : Tensor :=
  ⟨x.type, x.shape, x.elements.map x.type.carrier.withoutPayload, by simp [x.length_elements]⟩

theorem form_of_sameBits (h : x.sameBits y = true) : x.form = y.form := by
  simp only [sameBits, Bool.and_eq_true, decide_eq_true_eq] at h
  exact Prod.ext h.1.1 h.1.2

/-- Tensors have the same bits if nothing but the payloads of NaNs tells them apart. -/
theorem sameBits_iff_withoutPayloads : x.sameBits y = true ↔ x.withoutPayloads = y.withoutPayloads := by
  by_cases hform : x.form = y.form
  · obtain ⟨type, shape, xs, hxs⟩ := x
    obtain ⟨_, _, ys, hys⟩ := y
    obtain ⟨rfl, rfl⟩ := Prod.mk.inj hform
    simp only [sameBits_mk_iff, Carrier.sameBits_iff_withoutPayload, withoutPayloads, mk.injEq, true_and, heq_eq_eq]
    rw [← List.forall₂_eq_eq_eq, List.forall₂_map_left_iff, List.forall₂_map_right_iff]
  · have hplain {z : Tensor} : z.withoutPayloads.form = z.form := rfl
    exact iff_of_false (fun h => hform (form_of_sameBits h)) fun h => hform (by rw [← hplain, h, hplain])

theorem sameBits_equivalence : Equivalence fun x y : Tensor => x.sameBits y = true where
  refl := sameBits_refl
  symm h := sameBits_iff_withoutPayloads.mpr (sameBits_iff_withoutPayloads.mp h).symm
  trans h h' := sameBits_iff_withoutPayloads.mpr
    ((sameBits_iff_withoutPayloads.mp h).trans (sameBits_iff_withoutPayloads.mp h'))

theorem sameBits_cast (type : ElementType) (h : x.sameBits y = true) : (x.cast type).sameBits (y.cast type) = true := by
  obtain ⟨s, shape, xs, hxs⟩ := x
  obtain ⟨_, _, ys, hys⟩ := y
  obtain ⟨htype, hshape⟩ := Prod.mk.inj (form_of_sameBits h)
  dsimp only at htype hshape
  subst htype hshape
  by_cases htype : s = type
  · rwa [cast_of_type_eq htype, cast_of_type_eq htype]
  · rw [cast_of_type_ne htype, cast_of_type_ne htype]
    refine (sameBits_mk_iff _ _).mpr ?_
    rw [elementsAs, elementsAs, List.forall₂_map_left_iff, List.forall₂_map_right_iff]
    exact ((sameBits_mk_iff hxs hys).mp h).imp fun _ _ => Element.sameBits_convert_congr type

theorem sameBits_elementAs (type : ElementType) (h : x.sameBits y = true) {index : List Nat}
    (hindex : x.shape.Indexes index) :
    type.carrier.sameBits (x.elementAs type index) (y.elementAs type index) = true := by
  obtain ⟨s, shape, xs, hxs⟩ := x
  obtain ⟨_, _, ys, hys⟩ := y
  obtain ⟨htype, hshape⟩ := Prod.mk.inj (form_of_sameBits h)
  dsimp only at htype hshape
  subst htype hshape
  have hkx : shape.position index < xs.length := hxs ▸ Shape.position_lt hindex
  have hky : shape.position index < ys.length := hys ▸ Shape.position_lt hindex
  rw [elementAs_eq (elementAt?_eq hindex (List.getElem?_eq_getElem hkx)),
    elementAs_eq (elementAt?_eq (x := ⟨s, shape, ys, hys⟩) hindex (List.getElem?_eq_getElem hky))]
  exact Element.sameBits_convert_congr type ((List.forall₂_iff_get.mp ((sameBits_mk_iff hxs hys).mp h)).2 _ hkx hky)

private theorem sameBits_readAs (type : ElementType) (h : x.sameBits y = true) {s : Shape} (hx : x.shape.StretchesTo s)
    {index : List Nat} (hindex : s.Indexes index) :
    type.carrier.sameBits (x.readAs type index) (y.readAs type index) = true := by
  have hshape : x.shape = y.shape := congrArg Prod.snd (form_of_sameBits h)
  rw [readAs, readAs, ← hshape]
  exact sameBits_elementAs type h (hx.indexes_aligned hindex)

/-- Results have the same bits if they have one shape and one type, and the operands are read with the same bits. -/
theorem sameBits_of_sameBits_readAs {op : Operator} {z z' : Tensor} (hz : x.binary op y = .ok z)
    (hz' : x'.binary op y' = .ok z') (hshape : z.shape = z'.shape) {type : ElementType} (hresult : resultType x y = type)
    (hresult' : resultType x' y' = type)
    (hx : ∀ index, z.shape.Indexes index → type.carrier.sameBits (x.readAs type index) (x'.readAs type index) = true)
    (hy : ∀ index, z.shape.Indexes index → type.carrier.sameBits (y.readAs type index) (y'.readAs type index) = true) :
    z.sameBits z' = true := by
  subst hresult
  refine sameBits_of_elementAs (form_binary hz).1 ((form_binary hz').1.trans hresult') hshape fun index hindex => ?_
  have hindex' := hshape ▸ hindex
  rw [← readAs_self hindex, ← readAs_self hindex', readAs_binary hz (.refl _) hindex, readAs_binary hz' (.refl _) hindex',
    hresult', Carrier.combine_congr op (hx index hindex) (hy index hindex)]
  exact Carrier.sameBits_refl _ _

theorem sameBits_binary {op : Operator} {z z' : Tensor} (hx : x.sameBits x' = true) (hy : y.sameBits y' = true)
    (hz : x.binary op y = .ok z) (hz' : x'.binary op y' = .ok z') : z.sameBits z' = true := by
  have hresult := resultType_of_form (form_of_sameBits hx) (form_of_sameBits hy)
  have hshape := (form_binary hz).2
  have hshape' := (form_binary hz').2
  obtain ⟨hxs, hys⟩ := Shape.stretchesTo_of_broadcast hshape
  have hshapes : z.shape = z'.shape := by
    have hx_shape : x.shape = x'.shape := congrArg Prod.snd (form_of_sameBits hx)
    have hy_shape : y.shape = y'.shape := congrArg Prod.snd (form_of_sameBits hy)
    rw [hx_shape, hy_shape, hshape'] at hshape
    exact (Option.some.inj hshape).symm
  exact sameBits_of_sameBits_readAs hz hz' hshapes rfl hresult.symm (fun _ => sameBits_readAs _ hx hxs)
    fun _ => sameBits_readAs _ hy hys

/-- Operators fail alike on operands of the same bits, or have results of the same bits. -/
theorem binary_map_withoutPayloads (op : Operator) (hx : x.withoutPayloads = x'.withoutPayloads)
    (hy : y.withoutPayloads = y'.withoutPayloads) :
    (x.binary op y).map withoutPayloads = (x'.binary op y').map withoutPayloads := by
  have hxbits := sameBits_iff_withoutPayloads.mpr hx
  have hybits := sameBits_iff_withoutPayloads.mpr hy
  have hform : (x.binary op y).map form = (x'.binary op y').map form :=
    binary_map_form (form_of_sameBits hxbits) (form_of_sameBits hybits)
  rcases except_map_eq_map.mp hform with ⟨failure, hfailure, hfailure'⟩ | ⟨z, z', hz, hz', -⟩
  · rw [hfailure, hfailure']
  · rw [hz, hz', except_map_ok, except_map_ok]
    exact congrArg Except.ok (sameBits_iff_withoutPayloads.mp (sameBits_binary hxbits hybits hz hz'))

end Tensor

end TensorEval
