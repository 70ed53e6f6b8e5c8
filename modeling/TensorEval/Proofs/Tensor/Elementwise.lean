import TensorEval.Proofs.Tensor.Form
import TensorEval.Proofs.Tensor.Index

/-! Elementwise operators, index by index: at an index of the common shape the operator is applied to the elements of the
operands, cast to the common type, at the index aligned to each of them. -/
namespace TensorEval.Tensor

section Operands
variable {x : Tensor} {s : Shape}

/-- The element of an operand, converted to `type`, that a position of the shape `s` reads. -/
private def operandElement (type : ElementType) (s : Shape) (x : Tensor) (k : Nat) : Element type :=
  broadcastElement s x.shape (x.elementsAs type).toArray k

/-- Elements that have the type already are read with the same bits, whether or not they are converted. -/
private theorem sameBits_operandElement (x : Tensor) (s : Shape) (k : Nat) :
    x.type.carrier.sameBits (operandElement x.type s x k) (broadcastElement s x.shape x.elements.toArray k) = true := by
  unfold operandElement broadcastElement elementsAs
  rw [List.getElem?_toArray, List.getElem?_toArray, List.getElem?_map]
  cases x.elements[Shape.project s x.shape k]? with
  | none => exact Carrier.sameBits_refl _ _
  | some v => exact Element.sameBits_convert_self v

private theorem elementAt?_cast (type : ElementType) (hx : x.shape.StretchesTo s) {index : List Nat}
    (h : s.Indexes index) :
    ∃ v : Element type, (x.cast type).elementAt? (x.shape.aligned index) = some ⟨type, v⟩ ∧
      type.carrier.sameBits (operandElement type s x (s.position index)) v = true := by
  have hindex := hx.indexes_aligned h
  obtain ⟨v, hv⟩ : ∃ v, x.elements[x.shape.position (x.shape.aligned index)]? = some v :=
    ⟨_, List.getElem?_eq_getElem (x.length_elements ▸ Shape.position_lt hindex)⟩
  have hread : operandElement type s x (s.position index) = Element.convert type v := by
    rw [operandElement, broadcastElement, hx.project_position h, List.getElem?_toArray, elementsAs, List.getElem?_map, hv]
    rfl
  rw [hread]
  by_cases htype : x.type = type
  · subst htype
    rw [cast, if_pos rfl]
    exact ⟨v, elementAt?_eq hindex hv, Element.sameBits_convert_self v⟩
  · rw [cast, if_neg htype]
    refine ⟨Element.convert type v, elementAt?_eq (x := x.convert type) hindex ?_, Carrier.sameBits_refl _ _⟩
    exact (List.getElem?_map ..).trans (congrArg (Option.map _) hv)

end Operands

section Result
variable {op : Operator} {x y : Tensor} {s : Shape}

private theorem result_eq (op : Operator) (y : Tensor) (s : Shape) {left x : Tensor} {type : ElementType}
    (hleft : x.cast type = left) :
    (⟨left.type, s, (List.range s.size).map fun k => left.type.carrier.combine op
      (broadcastElement s x.shape left.elements.toArray k)
      (broadcastElement s y.shape (y.elementsAs left.type).toArray k), by simp⟩ : Tensor) =
    ⟨type, s, (List.range s.size).map fun k => type.carrier.combine op
      (operandElement type s x k) (operandElement type s y k), by simp⟩ := by
  by_cases htype : x.type = type
  · subst htype
    obtain rfl : x = left := (if_pos rfl).symm.trans hleft
    congr 2
    funext k
    exact (Carrier.combine_congr op (sameBits_operandElement x s k) (Carrier.sameBits_refl _ _)).symm
  · obtain rfl : x.convert type = left := (if_neg htype).symm.trans hleft
    rfl

private theorem binary_of_broadcast (op : Operator) {type : ElementType} (htype : resultType x y = type)
    (h : Shape.broadcast x.shape y.shape = some s) (hs : s.Allocatable) :
    x.binary op y = .ok ⟨type, s, (List.range s.size).map fun k =>
      type.carrier.combine op (operandElement type s x k) (operandElement type s y k), by simp⟩ := by
  unfold binary
  rw [h]
  dsimp only
  rw [if_pos hs]
  exact congrArg Except.ok (result_eq op y s (htype ▸ rfl))

private theorem binary_of_not_allocatable (h : ∀ s, Shape.broadcast x.shape y.shape = some s → ¬s.Allocatable) :
    x.binary op y = .error (.incompatibleShapes x.shape y.shape) :=
  binary_eq_error.mpr ⟨rfl, h⟩

structure Elementwise (op : Operator) (x y z : Tensor) : Prop where
  shape : Shape.broadcast x.shape y.shape = some z.shape
  type : z.type = resultType x y
  element : ∀ index, z.shape.Indexes index → ∃ v w : Element (resultType x y),
    (x.cast (resultType x y)).elementAt? (x.shape.aligned index) = some ⟨resultType x y, v⟩ ∧
    (y.cast (resultType x y)).elementAt? (y.shape.aligned index) = some ⟨resultType x y, w⟩ ∧
    z.elementAt? index = some ⟨resultType x y, (resultType x y).carrier.combine op v w⟩

theorem elementwise_binary {z : Tensor} (hz : x.binary op y = .ok z) : Elementwise op x y z := by
  obtain ⟨htype, hshape⟩ := form_binary hz
  refine ⟨hshape, htype, fun index hindex => ?_⟩
  have hstored : z.shape.Allocatable := by
    by_contra hstored
    rw [binary_of_not_allocatable fun s hs => Option.some.inj (hshape.symm.trans hs) ▸ hstored] at hz
    exact nomatch hz
  rw [binary_of_broadcast op rfl hshape hstored] at hz
  obtain ⟨hx, hy⟩ := Shape.stretchesTo_of_broadcast hshape
  obtain ⟨v, hv, hvbits⟩ := elementAt?_cast (resultType x y) hx hindex
  obtain ⟨w, hw, hwbits⟩ := elementAt?_cast (resultType x y) hy hindex
  refine ⟨v, w, hv, hw, ?_⟩
  generalize z.shape = s at *
  obtain rfl := Except.ok.inj hz
  refine elementAt?_eq hindex ?_
  rw [List.getElem?_map, List.getElem?_range (Shape.position_lt hindex), Option.map_some,
    Carrier.combine_congr op hvbits hwbits]

/-- The operator succeeds if the shapes broadcast to a shape that can be addressed, and gives at every index what it makes
of the two elements there. Else the two shapes do not fit. -/
theorem binary_spec (op : Operator) (x y : Tensor) :
    ((∃ z, x.binary op y = .ok z) ↔
      ∃ s, Shape.broadcast x.shape y.shape = some s ∧ s.nonzeroSize ≤ signedBound - 1) ∧
    (∀ z, x.binary op y = .ok z → Elementwise op x y z) ∧
    ∀ failure, x.binary op y = .error failure → failure = .incompatibleShapes x.shape y.shape := by
  have hstored (s : Shape) : s.nonzeroSize ≤ signedBound - 1 ↔ s.Allocatable := Nat.le_sub_one_iff_lt (by decide)
  simp only [hstored]
  by_cases h : ∃ s, Shape.broadcast x.shape y.shape = some s ∧ s.Allocatable
  · obtain ⟨s, hs, hallocatable⟩ := h
    have hok := binary_of_broadcast op rfl hs hallocatable
    refine ⟨iff_of_true ⟨_, hok⟩ ⟨s, hs, hallocatable⟩, fun z => elementwise_binary, fun failure hfailure => ?_⟩
    exact nomatch hok.symm.trans hfailure
  · have herror : x.binary op y = .error (.incompatibleShapes x.shape y.shape) :=
      binary_of_not_allocatable fun s hs hallocatable => h ⟨s, hs, hallocatable⟩
    refine ⟨iff_of_false ?_ h, fun z => elementwise_binary, fun failure hfailure => ?_⟩
    · rintro ⟨z, hz⟩
      exact nomatch herror.symm.trans hz
    · exact Except.error.inj (hfailure.symm.trans herror)

/-- A column and a row stretch to a table, here of the wider integers. -/
theorem binary_spec_column_row :
    let column : Tensor := ⟨.i8, [2, 1], [100#8, 200#8], rfl⟩
    let row : Tensor := ⟨.i16, [3], [1#16, 2#16, 1000#16], rfl⟩
    ∃ z, column.binary .add row = .ok z ∧ z.form = (.i16, [2, 3]) ∧ Elementwise .add column row z := by
  intro column row
  obtain ⟨z, hz⟩ := (binary_spec .add column row).1.mpr ⟨[2, 3], rfl, by decide⟩
  have hresult := (binary_spec .add column row).2.1 z hz
  exact ⟨z, hz, Prod.ext hresult.type (Option.some.inj hresult.shape.symm), hresult⟩

end Result

section Swap
variable {op : Operator}

theorem resultType_comm (x y : Tensor) : resultType x y = resultType y x := by
  unfold resultType
  by_cases hx : x.rank = 0 <;> by_cases hy : y.rank = 0 <;> simp [hx, hy, ElementType.promote_comm]

/-- Operands may be swapped if the elements may. If they do not fit, each order tells their shapes in that order. -/
theorem binary_swap_of_combine {x y : Tensor} (h : ∀ v w : Element (resultType x y),
    (resultType x y).carrier.combine op v w = (resultType x y).carrier.combine op w v) :
    (x.binary op y = .error (.incompatibleShapes x.shape y.shape) ∧
      y.binary op x = .error (.incompatibleShapes y.shape x.shape)) ∨
    ∃ z, x.binary op y = .ok z ∧ y.binary op x = .ok z := by
  by_cases hfit : ∃ s, Shape.broadcast x.shape y.shape = some s ∧ s.Allocatable
  · obtain ⟨s, hs, hstored⟩ := hfit
    refine Or.inr ⟨_, binary_of_broadcast op rfl hs hstored, ?_⟩
    rw [binary_of_broadcast op (resultType_comm y x) (Shape.broadcast_comm _ _ ▸ hs) hstored]
    simp only [h]
  · have hstored (s : Shape) (hs : Shape.broadcast x.shape y.shape = some s) : ¬s.Allocatable := fun hstored =>
      hfit ⟨s, hs, hstored⟩
    exact Or.inl ⟨binary_of_not_allocatable hstored,
      binary_of_not_allocatable fun s hs => hstored s (Shape.broadcast_comm _ _ ▸ hs)⟩

/-- The elements at an index are those that its position reads, up to the bits of NaNs, which no operator sees. -/
private theorem sameBits_swap_iff (hop : op = .max ∨ op = .min) {x y : Tensor} {s : Shape} (type : ElementType)
    (hx : x.shape.StretchesTo s) (hy : y.shape.StretchesTo s) {index : List Nat} (hindex : s.Indexes index) :
    ∃ v w : Element type,
      (x.cast type).elementAt? (x.shape.aligned index) = some ⟨type, v⟩ ∧
      (y.cast type).elementAt? (y.shape.aligned index) = some ⟨type, w⟩ ∧
      (type.carrier.sameBits
        (type.carrier.combine op (operandElement type s x (s.position index)) (operandElement type s y (s.position index)))
        (type.carrier.combine op (operandElement type s y (s.position index)) (operandElement type s x (s.position index)))
        = true ↔ ¬type.carrier.OppositeZeros v w) := by
  obtain ⟨v, hv, hvbits⟩ := elementAt?_cast type hx hindex
  obtain ⟨w, hw, hwbits⟩ := elementAt?_cast type hy hindex
  refine ⟨v, w, hv, hw, ?_⟩
  rw [← Carrier.sameBits_combine_swap_iff hop, ← Carrier.combine_congr op hvbits hwbits,
    ← Carrier.combine_congr op hwbits hvbits]

/-- The order of the operands shows in the bits of maxima and minima of opposite zeros, and nowhere else. -/
theorem sameBits_binary_swap_iff (hop : op = .max ∨ op = .min) (x y : Tensor) :
    (x.binary op y = .error (.incompatibleShapes x.shape y.shape) ∧
      y.binary op x = .error (.incompatibleShapes y.shape x.shape)) ∨
    ∃ z z', x.binary op y = .ok z ∧ y.binary op x = .ok z' ∧ z.form = z'.form ∧
      (z.sameBits z' = true ↔ ∀ index, z.shape.Indexes index → ∀ v w : Element (resultType x y),
        (x.cast (resultType x y)).elementAt? (x.shape.aligned index) = some ⟨resultType x y, v⟩ →
        (y.cast (resultType x y)).elementAt? (y.shape.aligned index) = some ⟨resultType x y, w⟩ →
        ¬(resultType x y).carrier.OppositeZeros v w) := by
  by_cases h : ∃ s, Shape.broadcast x.shape y.shape = some s ∧ s.Allocatable
  · obtain ⟨s, hs, hstored⟩ := h
    obtain ⟨hx, hy⟩ := Shape.stretchesTo_of_broadcast hs
    refine Or.inr ⟨_, _, binary_of_broadcast op rfl hs hstored,
      binary_of_broadcast op (resultType_comm y x) (Shape.broadcast_comm _ _ ▸ hs) hstored, rfl, ?_⟩
    generalize resultType x y = type
    rw [sameBits_mk_iff, List.forall₂_map_left_iff, List.forall₂_map_right_iff, List.forall₂_same]
    constructor
    · intro hbits index hindex v w hv hw
      obtain ⟨v', w', hv', hw', hswap⟩ := sameBits_swap_iff hop type hx hy hindex
      obtain ⟨rfl, rfl⟩ : v' = v ∧ w' = w := by
        rw [hv', Option.some_inj, Sigma.mk.injEq] at hv
        rw [hw', Option.some_inj, Sigma.mk.injEq] at hw
        exact ⟨eq_of_heq hv.2, eq_of_heq hw.2⟩
      exact hswap.mp (hbits _ (List.mem_range.mpr (Shape.position_lt hindex)))
    · intro hzeros k hk
      obtain ⟨index, hindex, rfl⟩ := Shape.exists_position_eq (List.mem_range.mp hk)
      obtain ⟨v, w, hv, hw, hswap⟩ := sameBits_swap_iff hop type hx hy hindex
      exact hswap.mpr (hzeros index hindex v w hv hw)
  · have hstored (s : Shape) (hs : Shape.broadcast x.shape y.shape = some s) : ¬s.Allocatable := fun hstored =>
      h ⟨s, hs, hstored⟩
    exact Or.inl ⟨binary_of_not_allocatable hstored,
      binary_of_not_allocatable fun s hs => hstored s (Shape.broadcast_comm _ _ ▸ hs)⟩

/-- The maximum of the two zeros is the one that stands on the left. -/
theorem sameBits_binary_swap_zeros :
    let positive : Tensor := ⟨.f32, [], [FloatWord.zero .binary32 false], rfl⟩
    let negative : Tensor := ⟨.f32, [], [FloatWord.zero .binary32 true], rfl⟩
    ∃ z z', positive.binary .max negative = .ok z ∧ negative.binary .max positive = .ok z' ∧ z.sameBits z' = false := by
  intro positive negative
  rcases sameBits_binary_swap_iff (Or.inl rfl) positive negative with ⟨herror, -⟩ | ⟨z, z', hz, hz', -, hbits⟩
  · rw [binary_of_broadcast .max (s := []) rfl rfl (by decide)] at herror
    exact nomatch herror
  · refine ⟨z, z', hz, hz', Bool.eq_false_iff.mpr fun hsame => ?_⟩
    rw [binary_of_broadcast .max (s := []) rfl rfl (by decide)] at hz
    obtain rfl := Except.ok.inj hz
    have hzeros : FloatWord.OppositeZeros (FloatWord.zero .binary32 false) (FloatWord.zero .binary32 true) := by decide
    exact hbits.mp hsame [] .nil _ _ rfl rfl hzeros

end Swap

end TensorEval.Tensor
