import TensorEval.Proofs.Tensor.Bits
import TensorEval.Proofs.Tensor.Broadcast
import TensorEval.Proofs.Tensor.Literal

/-! Constants as operands: a single value next to a tensor stands for the tensor of its shape with that value everywhere. -/
namespace TensorEval

namespace Attribute

def splat (shape : Shape) (type : ElementType) : Fill → Attribute
  | .float value => .denseFloat ⟨shape, type, .splat value⟩
  | .integer value => .denseInteger ⟨shape, type, .splat value⟩

private theorem constantParts_splat (shape : Shape) (type : ElementType) (fill : Fill) :
    Kernel.constantParts (splat shape type fill) = .ok (shape, type, fill) := by
  cases fill <;> rfl

end Attribute

namespace Tensor
variable {x y k d : Tensor} {op : Operator}

/-- Whether the results of an operator have the same bits with either of two tensors beside `x`, on its right and on its
left. -/
structure Interchangeable (op : Operator) (x y y' : Tensor) : Prop where
  right : ∃ z z', x.binary op y = .ok z ∧ x.binary op y' = .ok z' ∧ z.sameBits z' = true
  left : ∃ z z', y.binary op x = .ok z ∧ y'.binary op x = .ok z' ∧ z.sameBits z' = true

private theorem exists_binary_of_broadcast (op : Operator) {s : Shape} (h : Shape.broadcast x.shape y.shape = some s)
    (hstored : s.Allocatable) : ∃ z, x.binary op y = .ok z ∧ z.shape = s := by
  obtain ⟨z, hz⟩ := (exists_binary_iff h).mpr hstored
  exact ⟨z, hz, Option.some.inj ((form_binary hz).2.symm.trans h)⟩

/-- Whether a tensor of rank zero, cast to the type of another tensor, is every element of that. -/
def HoldsElements (k d : Tensor) : Prop := ∀ v ∈ d.elements, (k.cast d.type).sameBits (single v) = true

private theorem holdsElements_replicate {type : ElementType} {shape : Shape} (v : Element type)
    (hl : (List.replicate shape.size v).length = shape.size) :
    HoldsElements (single v) ⟨type, shape, List.replicate shape.size v, hl⟩ := by
  intro w hw
  have hcast : (single v).cast type = single v := cast_of_type_eq rfl
  rw [List.eq_of_mem_replicate hw]
  exact (congrArg (sameBits · (single v)) hcast).trans (sameBits_refl _)

private theorem elementAs_single {type : ElementType} (v : Element type) (type' : ElementType) :
    (single v).elementAs type' [] = Element.convert type' v := rfl

private theorem HoldsElements.sameBits_readAs (h : HoldsElements k d) (hk : k.shape = []) {index : List Nat}
    (hindex : d.shape.Indexes index) :
    d.type.carrier.sameBits (k.readAs d.type index) (d.readAs d.type index) = true := by
  obtain ⟨v, hv⟩ : ∃ v, d.elements[d.shape.position index]? = some v :=
    ⟨_, List.getElem?_eq_getElem (d.length_elements ▸ Shape.position_lt hindex)⟩
  have hread : d.readAs d.type index = Element.convert d.type v := by
    rw [readAs_self hindex, elementAs_eq (elementAt?_eq hindex hv)]
  have hsingle : k.readAs d.type index = k.elementAs d.type [] := by
    rw [readAs, hk]
    rfl
  have hnil : (k.cast d.type).shape.Indexes [] := by
    rw [shape_cast, hk]
    exact .nil
  rw [hread, hsingle, ← elementAs_single v]
  exact Carrier.sameBits_trans (Carrier.sameBits_symm (sameBits_elementAs_cast d.type k []))
    (sameBits_elementAs d.type (h v (List.mem_of_getElem? hv)) hnil)

/-- A tensor of rank zero that leaves `x` its type gives the same results as a tensor of the form of `x` whose elements it
holds. -/
theorem HoldsElements.interchangeable (h : HoldsElements k d) (hk : k.shape = []) (hform : d.form = x.form)
    (hstored : x.shape.Allocatable) (hresult : resultType x k = x.type) (op : Operator) : Interchangeable op x k d := by
  obtain ⟨htype, hshape⟩ : d.type = x.type ∧ d.shape = x.shape := Prod.mk.inj hform
  have hresult' : resultType x d = x.type := resultType_of_type rfl htype
  have hread (index : List Nat) (hindex : x.shape.Indexes index) :
      x.type.carrier.sameBits (k.readAs x.type index) (d.readAs x.type index) = true :=
    htype ▸ h.sameBits_readAs hk (hshape ▸ hindex)
  have hself (index : List Nat) : x.type.carrier.sameBits (x.readAs x.type index) (x.readAs x.type index) = true :=
    Carrier.sameBits_refl _ _
  have hscalar : Shape.broadcast k.shape x.shape = some x.shape := by rw [hk, Shape.nil_broadcast]
  have hdense : Shape.broadcast d.shape x.shape = some x.shape := by rw [hshape, Shape.broadcast_self]
  constructor
  · rw [Shape.broadcast_comm] at hscalar hdense
    obtain ⟨z, hz, hzshape⟩ := exists_binary_of_broadcast op hscalar hstored
    obtain ⟨z', hz', hzshape'⟩ := exists_binary_of_broadcast op hdense hstored
    refine ⟨z, z', hz, hz', sameBits_of_sameBits_readAs hz hz' (hzshape.trans hzshape'.symm) hresult hresult' ?_ ?_⟩
    · exact fun index _ => hself index
    · exact fun index hindex => hread index (hzshape ▸ hindex)
  · obtain ⟨z, hz, hzshape⟩ := exists_binary_of_broadcast op hscalar hstored
    obtain ⟨z', hz', hzshape'⟩ := exists_binary_of_broadcast op hdense hstored
    rw [resultType_comm] at hresult hresult'
    refine ⟨z, z', hz, hz', sameBits_of_sameBits_readAs hz hz' (hzshape.trans hzshape'.symm) hresult hresult' ?_ ?_⟩
    · exact fun index hindex => hread index (hzshape ▸ hindex)
    · exact fun index _ => hself index

private theorem materialize_splat {limit : Nat} {shape : Shape} {type : ElementType} (fill : Fill)
    (hstored : shape.Allocatable)
    (hlimit : checkSize limit shape type = .ok ()) : Kernel.materialize limit (.splat shape type fill) =
      .ok ⟨type, shape, List.replicate shape.size (Element.ofFill type fill), List.length_replicate⟩ :=
  Kernel.materialize_eq_ok.mpr
    ⟨shape, type, fill, Attribute.constantParts_splat shape type fill, hlimit, if_pos hstored⟩

/-- A constant of a single value and a constant with that value everywhere are interchangeable beside a tensor of their type
and of the shape of the second one. Beside a tensor with dimensions the single value may be of another type whose category
is not above, if it holds the element. -/
theorem constants_interchangeable (x : Tensor) (fill : Fill) {limit limit' : Nat} (hstored : x.shape.Allocatable)
    (hlimit : checkSize limit x.shape x.type = .ok ()) (hlimit' : x.type.byteWidth ≤ limit') :
    ∃ d k, Kernel.materialize limit (.splat x.shape x.type fill) = .ok d ∧
      Kernel.materialize limit' (.scalar x.type fill) = .ok k ∧ (∀ op, Interchangeable op x k d) ∧
      (x.rank ≠ 0 → ∀ k' : Tensor, k'.rank = 0 → k'.type.category ≤ x.type.category → HoldsElements k' d →
        ∀ op, Interchangeable op x k' d) := by
  refine ⟨_, _, materialize_splat fill hstored hlimit, materialize_scalar fill hlimit', ?_, ?_⟩
  · exact (holdsElements_replicate _ _).interchangeable rfl rfl hstored (resultType_of_type rfl rfl)
  · intro hx k' hk hcategory hholds
    have hresult : resultType x k' = x.type := by
      rw [resultType, if_neg fun h => hx h.1, if_pos ⟨hx, hk, hcategory⟩]
    exact hholds.interchangeable (List.length_eq_zero_iff.mp hk) rfl hstored hresult

/-- A row of bytes, and an integer that is wrapped to a byte as a constant of bytes, and on the way from a word to them. -/
theorem constants_interchangeable_wrapped :
    let row : Tensor := ⟨.i8, [2], [100#8, 200#8], rfl⟩
    ∃ d k k', Kernel.materialize defaultLimit (.splat [2] .i8 (.integer 300)) = .ok d ∧
      Kernel.materialize defaultLimit (.scalar .i8 (.integer 300)) = .ok k ∧
      Kernel.materialize defaultLimit (.scalar .i64 (.integer 300)) = .ok k' ∧
      Interchangeable .add row k d ∧ Interchangeable .add row k' d := by
  intro row
  have hsize : checkSize defaultLimit [2] .i8 = .ok () := rfl
  have hscalar : ElementType.i8.byteWidth ≤ defaultLimit := by decide
  obtain ⟨d, k, hd, hk, hsame, hother⟩ := constants_interchangeable row (.integer 300) (by decide) hsize hscalar
  have hk' : Kernel.materialize defaultLimit (.scalar .i64 (.integer 300)) = _ := materialize_scalar _ (by decide)
  refine ⟨d, k, _, hd, hk, hk', hsame .add, hother nofun _ rfl (by decide) ?_ .add⟩
  rw [materialize_splat _ (by decide) hsize] at hd
  obtain rfl := Except.ok.inj hd
  intro v hv
  rw [List.eq_of_mem_replicate hv]
  decide

end Tensor

end TensorEval
