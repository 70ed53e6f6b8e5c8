import TensorEval.Proofs.Tensor.Algebra

/-! Maximum and minimum as selections. Where an operand has a NaN the result has one, and elsewhere it has an element of
one of the operands, bit for bit. So a tensor is its own maximum and minimum, and operands may be grouped in any way,
although of two zeros the first one is taken. -/
namespace TensorEval

namespace Carrier
variable {op : Operator} {c : Carrier}

/-- What a maximum or a minimum `r` of two elements is: a NaN if one of them is a NaN, and else the one of the two that is
at least as much preferred as either. -/
structure Selects (op : Operator) (c : Carrier) (v w r : c.Value) : Prop where
  isNaN_iff : c.isNaN r = true ↔ c.isNaN v = true ∨ c.isNaN w = true
  chosen : c.isNaN r = false → r = v ∨ r = w
  preferred : c.isNaN r = false → c.preference op v ≤ c.preference op r ∧ c.preference op w ≤ c.preference op r

private theorem selects_combine (hop : op = .max ∨ op = .min) (v w : c.Value) :
    c.Selects op v w (c.combine op v w) := by
  by_cases h : c.isNaN v = true ∨ c.isNaN w = true
  · have hnan := (isNaN_combine hop).mpr h
    exact ⟨isNaN_combine hop, fun hnot => absurd (hnan.symm.trans hnot) (by decide),
      fun hnot => absurd (hnan.symm.trans hnot) (by decide)⟩
  · obtain ⟨hv, hw⟩ : c.isNaN v = false ∧ c.isNaN w = false := by simpa using h
    refine ⟨isNaN_combine hop, fun _ => ?_, fun _ => ?_⟩
    · rw [combine_eq_ite hop hv hw]
      split
      · exact Or.inl rfl
      · exact Or.inr rfl
    · rw [combine_eq_ite hop hv hw]
      split <;> omega

private theorem sameBits_combine_self (hop : op = .max ∨ op = .min) (v : c.Value) :
    c.sameBits (c.combine op v v) v = true := by
  cases hnan : c.isNaN v with
  | true => exact sameBits_iff.mpr (Or.inr ⟨(isNaN_combine hop).mpr (Or.inl hnan), hnan⟩)
  | false => exact sameBits_of_eq ((combine_eq_ite hop hnan hnan).trans (if_pos (Int.le_refl _)))

end Carrier

namespace Tensor
variable {op : Operator} {type : ElementType} {x y z : Tensor}

/-- A tensor whose elements are selected from those of the operands at the aligned indices. -/
structure Selection (op : Operator) (type : ElementType) (x y u : Tensor) : Prop where
  type_eq : u.type = type
  shape_eq : Shape.broadcast x.shape y.shape = some u.shape
  element : ∀ index, u.shape.Indexes index → ∃ v w r : Element type,
    x.elementAt? (x.shape.aligned index) = some ⟨type, v⟩ ∧ y.elementAt? (y.shape.aligned index) = some ⟨type, w⟩ ∧
    u.elementAt? index = some ⟨type, r⟩ ∧ type.carrier.Selects op v w r

private theorem selection_binary (hop : op = .max ∨ op = .min) (hx : x.type = type) (hy : y.type = type) {u : Tensor}
    (hu : x.binary op y = .ok u) : Selection op type x y u := by
  obtain ⟨hshape, htype, helement⟩ := elementwise_binary hu
  rw [resultType_of_type hx hy] at htype helement
  rw [cast_of_type_eq hx, cast_of_type_eq hy] at helement
  refine ⟨htype, hshape, fun index hindex => ?_⟩
  obtain ⟨v, w, hv, hw, hr⟩ := helement index hindex
  exact ⟨v, w, _, hv, hw, hr, Carrier.selects_combine hop v w⟩

private theorem allocatable_iff_binary_self (hop : op = .max ∨ op = .min) :
    x.shape.Allocatable ↔ ∃ u, x.binary op x = .ok u ∧ u.sameBits x = true := by
  have hiff : (∃ u, x.binary op x = .ok u) ↔ x.shape.Allocatable := exists_binary_iff (Shape.broadcast_self x.shape)
  rw [← hiff]
  refine ⟨fun ⟨u, hu⟩ => ⟨u, hu, ?_⟩, fun ⟨u, hu, _⟩ => ⟨u, hu⟩⟩
  have hresult : (Formula.apply op (.leaf x) (.leaf x)).result = .ok u := hu
  have hleaf : (Formula.leaf x).result = .ok x := rfl
  apply Formula.sameBits_of_value x.type _ _ _ hresult hleaf
  · simp [Formula.leaves]
  · simp [Formula.leaves]
  · exact fun element => Carrier.sameBits_combine_self hop _

/-- Maximum and minimum select from operands of one type, be they floating-point numbers or not. A tensor is its own
maximum and minimum as long as it has storage. Three operands may be grouped from the left or from the right. -/
theorem binary_selects (hop : op = .max ∨ op = .min) (hx : x.type = type) (hy : y.type = type) (hz : z.type = type) :
    (∀ u, x.binary op y = .ok u → Selection op type x y u) ∧
    (x.shape.Allocatable ↔ ∃ u, x.binary op x = .ok u ∧ u.sameBits x = true) ∧
    Associates op x y z :=
  ⟨fun _ => selection_binary hop hx hy, allocatable_iff_binary_self hop,
    associates_of_combine hx hy hz (Carrier.combine_assoc_of_choice hop)⟩

/-- Halves with both zeros, a NaN and an infinity. -/
theorem binary_selects_halves :
    let row : Tensor := ⟨.f16, [2], [FloatWord.zero .binary16 true, FloatWord.nan .binary16], rfl⟩
    let single : Tensor := ⟨.f16, [], [FloatWord.zero .binary16 false], rfl⟩
    let column : Tensor := ⟨.f16, [2, 1], [FloatWord.infinite .binary16 true, FloatWord.zero .binary16 true], rfl⟩
    (∀ u, row.binary .max single = .ok u → Selection .max .f16 row single u) ∧
      (∃ u, row.binary .max row = .ok u ∧ u.sameBits row = true) ∧ Associates .max row single column := by
  intro row single column
  obtain ⟨hselection, hself, hassociates⟩ := @binary_selects .max .f16 row single column (Or.inl rfl) rfl rfl rfl
  exact ⟨hselection, hself.mp (by decide), hassociates⟩

end Tensor

end TensorEval
