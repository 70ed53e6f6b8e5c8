import TensorEval.Proofs.Element.Laws
import TensorEval.Proofs.Tensor.Formula

/-! The laws that the elementwise operators obey as operations on tensors. Each of them has two sides that fail together, or
have results with the same bits: the shapes that the operands broadcast to on the way may differ, but both sides end in the
least shape that all of the operands stretch to. -/
namespace TensorEval.Tensor

def Commutes (op : Operator) (x y : Tensor) : Prop := Agree (x.binary op y) (y.binary op x)

def Associates (op : Operator) (x y z : Tensor) : Prop :=
  Agree (do (← x.binary op y).binary op z) (do x.binary op (← y.binary op z))

structure Distributes (op inner : Operator) (x y z : Tensor) : Prop where
  left : Agree (do x.binary op (← y.binary inner z)) (do (← x.binary op y).binary inner (← x.binary op z))
  right : Agree (do (← y.binary inner z).binary op x) (do (← y.binary op x).binary inner (← z.binary op x))

/-- The laws of a commutative semiring without its constants, for three operands. -/
structure SemiringLaws (plus times : Operator) (x y z : Tensor) : Prop where
  plus_comm : Commutes plus x y
  plus_assoc : Associates plus x y z
  times_comm : Commutes times x y
  times_assoc : Associates times x y z
  distrib : Distributes times plus x y z

section Laws
variable {type : ElementType} {op inner : Operator} {x y z : Tensor}

private theorem commutes_of_combine (h : ∀ v w : Element (resultType x y),
    (resultType x y).carrier.combine op v w = (resultType x y).carrier.combine op w v) : Commutes op x y := by
  unfold Commutes
  rcases binary_swap_of_combine h with ⟨hxy, hyx⟩ | ⟨z, hxy, hyx⟩
  · rw [hxy, hyx]
    exact .failed _ _
  · rw [hxy, hyx]
    exact .same (sameBits_refl z)

theorem associates_of_combine (hx : x.type = type) (hy : y.type = type) (hz : z.type = type)
    (h : ∀ u v w : Element type, type.carrier.combine op (type.carrier.combine op u v) w =
      type.carrier.combine op u (type.carrier.combine op v w)) : Associates op x y z := by
  have hagree : Agree (Formula.apply op (.apply op (.leaf x) (.leaf y)) (.leaf z)).result
      (Formula.apply op (.leaf x) (.apply op (.leaf y) (.leaf z))).result := by
    apply Formula.agree_of_value type
    · simp [Formula.leaves, hx, hy, hz]
    · simp [Formula.leaves]
    · exact fun element => Carrier.sameBits_of_eq (h _ _ _)
  exact hagree

private theorem distributes_of_combine (hx : x.type = type) (hy : y.type = type) (hz : z.type = type)
    (hcomm : ∀ v w : Element type, type.carrier.combine op v w = type.carrier.combine op w v)
    (h : ∀ u v w : Element type, type.carrier.combine op u (type.carrier.combine inner v w) =
      type.carrier.combine inner (type.carrier.combine op u v) (type.carrier.combine op u w)) :
    Distributes op inner x y z := by
  have hleft : Agree (Formula.apply op (.leaf x) (.apply inner (.leaf y) (.leaf z))).result
      (Formula.apply inner (.apply op (.leaf x) (.leaf y)) (.apply op (.leaf x) (.leaf z))).result := by
    apply Formula.agree_of_value type
    · simp [Formula.leaves, hx, hy, hz]
    · grind [Formula.leaves]
    · exact fun element => Carrier.sameBits_of_eq (h _ _ _)
  have hright : Agree (Formula.apply op (.apply inner (.leaf y) (.leaf z)) (.leaf x)).result
      (Formula.apply inner (.apply op (.leaf y) (.leaf x)) (.apply op (.leaf z) (.leaf x))).result := by
    apply Formula.agree_of_value type
    · simp [Formula.leaves, hx, hy, hz]
    · grind [Formula.leaves]
    · intro element
      simp only [Formula.value, hcomm _ (element x)]
      exact Carrier.sameBits_of_eq (h _ _ _)
  exact ⟨hleft, hright⟩

private theorem semiringLaws_of_combine {plus times : Operator} (htype : type.isFloat = false) (hx : x.type = type)
    (hy : y.type = type) (hz : z.type = type)
    (h : ∀ u v w : Element type, type.carrier.combine times u (type.carrier.combine plus v w) =
      type.carrier.combine plus (type.carrier.combine times u v) (type.carrier.combine times u w)) :
    SemiringLaws plus times x y z := by
  have hcommon : (resultType x y).isFloat = false := by rw [resultType_of_type hx hy, htype]
  exact {
    plus_comm := commutes_of_combine (Element.combine_comm hcommon plus)
    plus_assoc := associates_of_combine hx hy hz (Element.combine_assoc htype plus)
    times_comm := commutes_of_combine (Element.combine_comm hcommon times)
    times_assoc := associates_of_combine hx hy hz (Element.combine_assoc htype times)
    distrib := distributes_of_combine hx hy hz (Element.combine_comm htype times) h }

end Laws

/-- Integer tensors of one type, truth values among them, obey the laws of a commutative semiring, with sum and product for
its operators and also with maximum and minimum, either of them in the place of the sum. -/
theorem integer_laws {type : ElementType} (htype : type.isFloat = false) {x y z : Tensor} (hx : x.type = type)
    (hy : y.type = type) (hz : z.type = type) :
    SemiringLaws .add .mul x y z ∧ SemiringLaws .max .min x y z ∧ SemiringLaws .min .max x y z :=
  ⟨semiringLaws_of_combine htype hx hy hz (Element.combine_mul_add htype),
    semiringLaws_of_combine htype hx hy hz (Element.combine_distrib_of_choice htype (Or.inr rfl) (Or.inl rfl)),
    semiringLaws_of_combine htype hx hy hz (Element.combine_distrib_of_choice htype (Or.inl rfl) (Or.inr rfl))⟩

/-- A column, a row and an empty table of bytes. The sums and products of the first two wrap, and those with the third are
of different shapes on the way. -/
theorem integer_laws_bytes :
    let column : Tensor := ⟨.i8, [2, 1], [100#8, 200#8], rfl⟩
    let row : Tensor := ⟨.i8, [3], [1#8, 77#8, 255#8], rfl⟩
    let empty : Tensor := ⟨.i8, [0, 1, 1], [], rfl⟩
    SemiringLaws .add .mul column row empty ∧ SemiringLaws .max .min column row empty ∧
      SemiringLaws .min .max column row empty := by
  intro column row empty
  exact integer_laws (show ElementType.i8.isFloat = false from rfl) rfl rfl rfl

/-- The sum and the product of tensors of any types are the same in either order. If the operands do not fit, each order
tells their shapes in that order. -/
theorem binary_swap {op : Operator} (hop : op = .add ∨ op = .mul) (x y : Tensor) :
    (x.binary op y = .error (.incompatibleShapes x.shape y.shape) ∧
      y.binary op x = .error (.incompatibleShapes y.shape x.shape)) ∨
    ∃ z z', x.binary op y = .ok z ∧ y.binary op x = .ok z' ∧ z.sameBits z' = true := by
  rcases binary_swap_of_combine (Carrier.combine_swap hop) with herror | ⟨z, hz, hz'⟩
  · exact Or.inl herror
  · exact Or.inr ⟨z, z, hz, hz', sameBits_refl z⟩

/-- Words and a half that is promoted to their row. -/
theorem binary_swap_wordRow_half :
    let row : Tensor := ⟨.i64, [2], [3#64, 16777217#64], rfl⟩
    let half : Tensor := ⟨.f16, [], [FloatWord.ofInt .binary16 2049], rfl⟩
    ∃ z z', row.binary .mul half = .ok z ∧ half.binary .mul row = .ok z' ∧ z.sameBits z' = true := by
  intro row half
  refine (binary_swap (Or.inr rfl) row half).resolve_left fun ⟨herror, _⟩ => ?_
  exact (binary_eq_error.mp herror).2 [2] rfl (by decide)

end TensorEval.Tensor
