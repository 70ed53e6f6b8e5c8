import TensorEval.Proofs.Tensor.Reading

/-! Formulas of elementwise operators over tensors of one type. A formula has a result if its leaves stretch to a common
shape with storage. The result has the least of these shapes, and at an index it has the value of the formula on the
elements there. So a law of the elements is a law of the tensors, and holds of failures as well. -/
namespace TensorEval

/-- Two computations both fail, or their results have the same bits. -/
inductive Tensor.Agree : Except Failure Tensor → Except Failure Tensor → Prop
  | failed (failure failure' : Failure) : Agree (.error failure) (.error failure')
  | same {z z' : Tensor} (h : z.sameBits z' = true) : Agree (.ok z) (.ok z')

theorem Tensor.agree_of_exists_iff {f g : Except Failure Tensor} (hiff : (∃ z, f = .ok z) ↔ ∃ z, g = .ok z)
    (h : ∀ z z', f = .ok z → g = .ok z' → z.sameBits z' = true) : Agree f g := by
  cases f with
  | error failure =>
    cases g with
    | error failure' => exact .failed failure failure'
    | ok z' =>
      obtain ⟨z, hz⟩ := hiff.mpr ⟨z', rfl⟩
      cases hz
  | ok z =>
    obtain ⟨z', rfl⟩ := hiff.mp ⟨z, rfl⟩
    exact .same (h z z' rfl rfl)

/-- Nonempty combinations of tensors by elementwise operators. -/
inductive Formula where
  | leaf (x : Tensor)
  | apply (op : Operator) (left right : Formula)

namespace Formula

def leaves : Formula → List Tensor
  | leaf x => [x]
  | apply _ left right => left.leaves ++ right.leaves

def result : Formula → Except Failure Tensor
  | leaf x => .ok x
  | apply op left right => do
    let u ← left.result
    let v ← right.result
    u.binary op v

def value (c : Carrier) (element : Tensor → c.Value) : Formula → c.Value
  | leaf x => element x
  | apply op left right => c.combine op (left.value c element) (right.value c element)

section Shape
variable {op : Operator} {e left right : Formula} {z : Tensor} {s : Shape}

private theorem result_apply_eq_ok : (apply op left right).result = .ok z ↔
    ∃ u v, left.result = .ok u ∧ right.result = .ok v ∧ u.binary op v = .ok z := by
  rw [result, except_bind_eq_ok]
  refine exists_congr fun u => ?_
  rw [except_bind_eq_ok]
  exact ⟨fun ⟨hu, v, hv, hz⟩ => ⟨v, hu, hv, hz⟩, fun ⟨v, hu, hv, hz⟩ => ⟨hu, v, hv, hz⟩⟩

private theorem stretchesTo_iff_of_result (h : e.result = .ok z) :
    z.shape.StretchesTo s ↔ ∀ x ∈ e.leaves, x.shape.StretchesTo s := by
  induction e generalizing z with
  | leaf x =>
    obtain rfl := Except.ok.inj h
    simp [leaves]
  | apply op left right ihl ihr =>
    obtain ⟨u, v, hu, hv, hz⟩ := result_apply_eq_ok.mp h
    rw [Shape.stretchesTo_iff_of_broadcast (Tensor.form_binary hz).2, ihl hu, ihr hv, leaves, List.forall_mem_append]

private theorem exists_result (hs : s.Allocatable) (h : ∀ x ∈ e.leaves, x.shape.StretchesTo s) :
    ∃ z, e.result = .ok z := by
  induction e with
  | leaf x => exact ⟨x, rfl⟩
  | apply op left right ihl ihr =>
    obtain ⟨hleft, hright⟩ := List.forall_mem_append.mp h
    obtain ⟨u, hu⟩ := ihl hleft
    obtain ⟨v, hv⟩ := ihr hright
    obtain ⟨t, ht, hts⟩ := Shape.exists_broadcast ((stretchesTo_iff_of_result hu).mpr hleft)
      ((stretchesTo_iff_of_result hv).mpr hright)
    obtain ⟨z, hz⟩ : ∃ z, u.binary op v = .ok z := (Tensor.exists_binary_iff ht).mpr (hts.allocatable hs)
    exact ⟨z, result_apply_eq_ok.mpr ⟨u, v, hu, hv, hz⟩⟩

/-- An operator on formulas has a result if the leaves stretch to a shape with storage. What was computed before has a
narrower shape, so it has storage too. -/
theorem exists_result_apply_iff : (∃ z, (apply op left right).result = .ok z) ↔
    ∃ s : Shape, s.Allocatable ∧ ∀ x ∈ (apply op left right).leaves, x.shape.StretchesTo s := by
  refine ⟨fun ⟨z, h⟩ => ⟨z.shape, ?_, (stretchesTo_iff_of_result h).mp (.refl _)⟩, fun ⟨s, hs, h⟩ => exists_result hs h⟩
  obtain ⟨u, v, -, -, hz⟩ := result_apply_eq_ok.mp h
  exact Tensor.allocatable_of_binary hz

end Shape

section Elements
variable {type : ElementType} {e e' left right left' right' : Formula} {op op' : Operator} {z z' : Tensor}

private theorem type_result (htype : ∀ x ∈ e.leaves, x.type = type) (h : e.result = .ok z) : z.type = type := by
  induction e generalizing z with
  | leaf x =>
    obtain rfl := Except.ok.inj h
    exact htype _ List.mem_cons_self
  | apply op left right ihl ihr =>
    obtain ⟨hleft, hright⟩ := List.forall_mem_append.mp htype
    obtain ⟨u, v, hu, hv, hz⟩ := result_apply_eq_ok.mp h
    rw [(Tensor.form_binary hz).1, Tensor.resultType_of_type (ihl hleft hu) (ihr hright hv)]

private theorem sameBits_readAs_result (htype : ∀ x ∈ e.leaves, x.type = type) (h : e.result = .ok z) {s : Shape}
    (hs : z.shape.StretchesTo s) {index : List Nat} (hindex : s.Indexes index) :
    type.carrier.sameBits (z.readAs type index) (e.value type.carrier fun x => x.readAs type index) = true := by
  induction e generalizing z with
  | leaf x =>
    obtain rfl := Except.ok.inj h
    exact Carrier.sameBits_refl _ _
  | apply op left right ihl ihr =>
    obtain ⟨hleft, hright⟩ := List.forall_mem_append.mp htype
    obtain ⟨u, v, hu, hv, hz⟩ := result_apply_eq_ok.mp h
    obtain ⟨hus, hvs⟩ := (Shape.stretchesTo_iff_of_broadcast (Tensor.form_binary hz).2).mp hs
    rw [Tensor.readAs_binary hz hs hindex, Tensor.resultType_of_type (type_result hleft hu) (type_result hright hv),
      Carrier.combine_congr op (ihl hleft hu hus) (ihr hright hv hvs)]
    exact Element.sameBits_convert_self _

/-- Formulas over the same leaves with values of the same bits on all elements have results with the same bits. -/
theorem sameBits_of_value (type : ElementType) (htype : ∀ x ∈ e.leaves, x.type = type)
    (hleaves : ∀ x, x ∈ e'.leaves ↔ x ∈ e.leaves)
    (hvalue : ∀ element, type.carrier.sameBits (e.value type.carrier element) (e'.value type.carrier element) = true)
    (h : e.result = .ok z) (h' : e'.result = .ok z') : z.sameBits z' = true := by
  have htype' : ∀ x ∈ e'.leaves, x.type = type := fun x hx => htype x ((hleaves x).mp hx)
  have hshape {s : Shape} : z.shape.StretchesTo s ↔ z'.shape.StretchesTo s := by
    rw [stretchesTo_iff_of_result h, stretchesTo_iff_of_result h']
    simp only [hleaves]
  have heq : z.shape = z'.shape := (hshape.mpr (.refl _)).antisymm (hshape.mp (.refl _))
  refine Tensor.sameBits_of_elementAs (type_result htype h) (type_result htype' h') heq fun index hindex => ?_
  rw [← Tensor.readAs_self hindex, ← Tensor.readAs_self (heq ▸ hindex)]
  have hleft := sameBits_readAs_result htype h (.refl _) hindex
  have hright := sameBits_readAs_result htype' h' (hshape.mp (.refl _)) hindex
  exact Carrier.sameBits_trans hleft (Carrier.sameBits_trans (hvalue _) (Carrier.sameBits_symm hright))

/-- A law of the elements is a law of the tensors: the two sides fail together, or have results with the same bits. -/
theorem agree_of_value (type : ElementType) (htype : ∀ x ∈ (apply op left right).leaves, x.type = type)
    (hleaves : ∀ x, x ∈ (apply op' left' right').leaves ↔ x ∈ (apply op left right).leaves)
    (hvalue : ∀ element, type.carrier.sameBits ((apply op left right).value type.carrier element)
      ((apply op' left' right').value type.carrier element) = true) :
    Tensor.Agree (apply op left right).result (apply op' left' right').result := by
  refine Tensor.agree_of_exists_iff ?_ fun z z' => sameBits_of_value type htype hleaves hvalue
  rw [exists_result_apply_iff, exists_result_apply_iff]
  simp only [hleaves]

end Elements

end Formula

end TensorEval
