import TensorEval.Proofs.Kernel
import TensorEval.Proofs.Tensor.Form

/-! Elementwise operations succeed exactly under a chain of conditions on what they read, and fail with the failure of
the first link that does not hold. Nothing is left to fail after the checks but the storage of the result. -/
namespace TensorEval

/-! ### Domains -/

theorem ElementType.isFloat_promote (a b : ElementType) : (promote a b).isFloat = (a.isFloat || b.isFloat) := by
  cases a <;> cases b <;> rfl

theorem Domain.accepts_promote {d : Domain} {a b : ElementType} (ha : d.accepts a = true) (hb : d.accepts b = true) :
    d.accepts (a.promote b) = true := by
  unfold accepts at *
  rw [ElementType.isFloat_promote]
  cases d <;> simp_all

private theorem Tensor.accepts_resultType {d : Domain} {x y : Tensor} (hx : d.accepts x.type = true)
    (hy : d.accepts y.type = true) : d.accepts (x.resultType y) = true := by
  unfold resultType
  split
  · exact hy
  split
  · exact hx
  · exact Domain.accepts_promote hx hy

namespace Kernel
variable {operator : Operator} {domain : Domain} {limit : Nat} {env : Environment} {op : Operation}
  {left right : String} {x y : Tensor} {failure : Failure}

/-! ### The conditions -/

structure Reads (env : Environment) (left right : String) (x y : Tensor) : Prop where
  leftBound : env.get? left = some x
  rightBound : env.get? right = some y

structure Typed (domain : Domain) (env : Environment) (left right : String) (x y : Tensor) : Prop
    extends Reads env left right x y where
  leftType : domain.accepts x.type = true
  rightType : domain.accepts y.type = true

structure Shaped (domain : Domain) (env : Environment) (left right : String) (x y : Tensor) (shape : Shape) : Prop
    extends Typed domain env left right x y where
  broadcast : Shape.broadcast x.shape y.shape = some shape

/-- Two names are bound to tensors of the domain, and what they combine to takes a number of bytes that can be told. -/
structure Sized (domain : Domain) (env : Environment) (left right : String) (x y : Tensor) (shape : Shape)
    (length : Nat) : Prop extends Shaped domain env left right x y shape where
  byteLength : shape.byteLength (x.resultType y).byteWidth = some length

/-- The first condition that two operands do not meet, and the failure that tells of it. -/
inductive OperandFault (domain : Domain) (limit : Nat) (env : Environment) (op : Operation) (left right : String) :
    Failure → Prop
  | leftMissing (h : env.get? left = none) : OperandFault domain limit env op left right (.missingOperand left)
  | rightMissing {x : Tensor} (bound : env.get? left = some x) (h : env.get? right = none) :
    OperandFault domain limit env op left right (.missingOperand right)
  | leftType {x y : Tensor} (reads : Reads env left right x y) (h : domain.accepts x.type = false) :
    OperandFault domain limit env op left right (.operandType op.displayName left x.type domain)
  | rightType {x y : Tensor} (reads : Reads env left right x y) (typed : domain.accepts x.type = true)
    (h : domain.accepts y.type = false) :
    OperandFault domain limit env op left right (.operandType op.displayName right y.type domain)
  | shapes {x y : Tensor} (typed : Typed domain env left right x y) (h : Shape.broadcast x.shape y.shape = none) :
    OperandFault domain limit env op left right (.incompatibleShapes x.shape y.shape)
  | count {x y : Tensor} {shape : Shape} (shaped : Shaped domain env left right x y shape)
    (h : shape.byteLength (x.resultType y).byteWidth = none) :
    OperandFault domain limit env op left right (.countOverflow shape)
  | size {x y : Tensor} {shape : Shape} {length : Nat} (sized : Sized domain env left right x y shape length)
    (h : limit < length) : OperandFault domain limit env op left right (.overLimit shape length limit)
  | storage {x y : Tensor} {shape : Shape} {length : Nat} (sized : Sized domain env left right x y shape length)
    (admitted : length ≤ limit) (h : ¬shape.Allocatable) :
    OperandFault domain limit env op left right (.incompatibleShapes x.shape y.shape)

/-- The first condition that an elementwise operation does not meet, and the failure that tells of it. -/
inductive ElementwiseFault (domain : Domain) (limit : Nat) (env : Environment) (op : Operation) : Failure → Prop
  | operandCount (h : op.operands.length ≠ 2) :
    ElementwiseFault domain limit env op (.operandCount op.displayName 2 op.operands.length)
  | operands {left right : String} {failure : Failure} (operands : op.operands = [left, right])
    (h : OperandFault domain limit env op left right failure) : ElementwiseFault domain limit env op failure

/-! ### Two operands -/

private theorem combine_eq_ok_iff_sized {z : Tensor} :
    combine operator domain limit env op left right = .ok z ↔ ∃ x y shape length,
      Sized domain env left right x y shape length ∧ length ≤ limit ∧ x.binary operator y = .ok z := by
  rw [combine_eq_ok]
  constructor
  · rintro ⟨x, hx, y, hy, hleft, hright, shape, hshape, hsize, hz⟩
    obtain ⟨length, hlength, hlimit⟩ := checkSize_eq_ok_iff.mp hsize
    have hreads : Reads env left right x y := ⟨Environment.lookup_eq_ok.mp hx, Environment.lookup_eq_ok.mp hy⟩
    have htyped : Typed domain env left right x y :=
      ⟨hreads, checkDomain_eq_ok.mp hleft, checkDomain_eq_ok.mp hright⟩
    exact ⟨x, y, shape, length, ⟨⟨htyped, commonShape_eq_ok.mp hshape⟩, hlength⟩, hlimit, hz⟩
  · rintro ⟨x, y, shape, length, hsized, hlimit, hz⟩
    exact ⟨x, Environment.lookup_eq_ok.mpr hsized.leftBound, y, Environment.lookup_eq_ok.mpr hsized.rightBound,
      checkDomain_eq_ok.mpr hsized.leftType, checkDomain_eq_ok.mpr hsized.rightType, shape,
      commonShape_eq_ok.mpr hsized.broadcast, checkSize_eq_ok_iff.mpr ⟨length, hsized.byteLength, hlimit⟩, hz⟩

private theorem combine_of_reads (h : Reads env left right x y) :
    combine operator domain limit env op left right = (do
      checkDomain op domain left x
      checkDomain op domain right y
      let shape ← commonShape x y
      checkSize limit shape (x.resultType y)
      x.binary operator y) := by
  have hx := Environment.lookup_eq_ok.mpr h.leftBound
  have hy := Environment.lookup_eq_ok.mpr h.rightBound
  rw [combine, hx, except_ok_bind, hy, except_ok_bind]

private theorem combine_of_typed (h : Typed domain env left right x y) :
    combine operator domain limit env op left right = (do
      let shape ← commonShape x y
      checkSize limit shape (x.resultType y)
      x.binary operator y) := by
  have hleft : checkDomain op domain left x = .ok () := checkDomain_eq_ok.mpr h.leftType
  have hright : checkDomain op domain right y = .ok () := checkDomain_eq_ok.mpr h.rightType
  rw [combine_of_reads h.toReads, hleft, except_ok_bind, hright, except_ok_bind]

private theorem combine_of_shaped {shape : Shape} (h : Shaped domain env left right x y shape) :
    combine operator domain limit env op left right = (do
      checkSize limit shape (x.resultType y)
      x.binary operator y) := by
  rw [combine_of_typed h.toTyped, commonShape_eq_ok.mpr h.broadcast, except_ok_bind]

private theorem combine_of_fault (h : OperandFault domain limit env op left right failure) :
    combine operator domain limit env op left right = .error failure := by
  cases h with
  | leftMissing h => exact except_bind_eq_error.mpr (.inl (Environment.lookup_eq_error.mpr ⟨h, rfl⟩))
  | rightMissing bound h =>
    have hright := Environment.lookup_eq_error.mpr ⟨h, rfl⟩
    exact except_bind_eq_error.mpr (.inr ⟨_, Environment.lookup_eq_ok.mpr bound, except_bind_eq_error.mpr (.inl hright)⟩)
  | leftType reads h => rw [combine_of_reads reads, checkDomain_eq_error.mpr ⟨h, rfl⟩, except_error_bind]
  | rightType reads typed h =>
    rw [combine_of_reads reads, checkDomain_eq_ok.mpr typed, except_ok_bind, checkDomain_eq_error.mpr ⟨h, rfl⟩,
      except_error_bind]
  | shapes typed h => rw [combine_of_typed typed, commonShape_eq_error.mpr ⟨h, rfl⟩, except_error_bind]
  | count shaped h =>
    rw [combine_of_shaped shaped, checkSize_eq_error_iff.mpr (.inl ⟨h, rfl⟩), except_error_bind]
  | size sized h =>
    rw [combine_of_shaped sized.toShaped, checkSize_eq_error_iff.mpr (.inr ⟨_, sized.byteLength, h, rfl⟩),
      except_error_bind]
  | storage sized admitted h =>
    rw [combine_of_shaped sized.toShaped, checkSize_eq_ok_iff.mpr ⟨_, sized.byteLength, admitted⟩, except_ok_bind]
    refine Tensor.binary_eq_error.mpr ⟨rfl, fun s hs => ?_⟩
    rwa [← Option.some.inj (sized.broadcast.symm.trans hs)]

/-- Two operands fail to combine as the first condition that they do not meet. The operator itself repeats the check of
the shapes, so it fails for want of storage only. -/
theorem combine_eq_error : combine operator domain limit env op left right = .error failure ↔
    OperandFault domain limit env op left right failure := by
  refine ⟨fun h => ?_, combine_of_fault⟩
  unfold combine at h
  rcases except_bind_eq_error.mp h with h | ⟨x, hx, h⟩
  · obtain ⟨hnone, rfl⟩ := Environment.lookup_eq_error.mp h
    exact .leftMissing hnone
  have hx := Environment.lookup_eq_ok.mp hx
  rcases except_bind_eq_error.mp h with h | ⟨y, hy, h⟩
  · obtain ⟨hnone, rfl⟩ := Environment.lookup_eq_error.mp h
    exact .rightMissing hx hnone
  have hreads : Reads env left right x y := ⟨hx, Environment.lookup_eq_ok.mp hy⟩
  rcases except_check_eq_error.mp h with h | ⟨hleft, h⟩
  · obtain ⟨hleft, rfl⟩ := checkDomain_eq_error.mp h
    exact .leftType hreads hleft
  have hleft := checkDomain_eq_ok.mp hleft
  rcases except_check_eq_error.mp h with h | ⟨hright, h⟩
  · obtain ⟨hright, rfl⟩ := checkDomain_eq_error.mp h
    exact .rightType hreads hleft hright
  have htyped : Typed domain env left right x y := ⟨hreads, hleft, checkDomain_eq_ok.mp hright⟩
  rcases except_bind_eq_error.mp h with h | ⟨shape, hshape, h⟩
  · obtain ⟨hnone, rfl⟩ := commonShape_eq_error.mp h
    exact .shapes htyped hnone
  have hshaped : Shaped domain env left right x y shape := ⟨htyped, commonShape_eq_ok.mp hshape⟩
  rcases except_check_eq_error.mp h with h | ⟨hsize, h⟩
  · rcases checkSize_eq_error_iff.mp h with ⟨hnone, rfl⟩ | ⟨length, hlength, hlimit, rfl⟩
    · exact .count hshaped hnone
    · exact .size ⟨hshaped, hlength⟩ hlimit
  · obtain ⟨length, hlength, hlimit⟩ := checkSize_eq_ok_iff.mp hsize
    obtain ⟨rfl, hstorage⟩ := Tensor.binary_eq_error.mp h
    exact .storage ⟨hshaped, hlength⟩ hlimit (hstorage shape hshaped.broadcast)

/-! ### One operation -/

theorem evaluate_elementwise_eq_ok {zs : List Tensor} :
    (elementwise operator domain).evaluate limit env op = .ok zs ↔
      ∃ left right x y shape length z, op.operands = [left, right] ∧ Sized domain env left right x y shape length ∧
        length ≤ limit ∧ x.binary operator y = .ok z ∧ zs = [z] := by
  rw [evaluate_eq_ok]
  constructor
  · rintro (⟨h, -⟩ | ⟨operator', domain', left, right, z, h, hoperands, hz, rfl⟩)
    · exact nomatch h
    · obtain ⟨rfl, rfl⟩ := Kernel.elementwise.inj h
      obtain ⟨x, y, shape, length, hsized, hlimit, hz⟩ := combine_eq_ok_iff_sized.mp hz
      exact ⟨left, right, x, y, shape, length, z, hoperands, hsized, hlimit, hz, rfl⟩
  · rintro ⟨left, right, x, y, shape, length, z, hoperands, hsized, hlimit, hz, rfl⟩
    have hcombine : combine operator domain limit env op left right = .ok z :=
      combine_eq_ok_iff_sized.mpr ⟨x, y, shape, length, hsized, hlimit, hz⟩
    exact .inr ⟨operator, domain, left, right, z, rfl, hoperands, hcombine, rfl⟩

/-- An elementwise operation fails as the first condition that it does not meet, and never for want of storage alone. -/
theorem evaluate_elementwise_eq_error {stop : Stop} :
    (elementwise operator domain).evaluate limit env op = .error stop ↔
      ∃ failure, stop = .failed failure ∧ ElementwiseFault domain limit env op failure := by
  unfold evaluate
  split
  next h => contradiction
  next operator domain left right hkernel hoperands =>
    obtain ⟨rfl, rfl⟩ := Kernel.elementwise.inj hkernel
    rw [except_bind_eq_error, Outcome.ofExcept_eq_error]
    constructor
    · rintro (⟨failure, h, rfl⟩ | ⟨z, -, h⟩)
      · exact ⟨failure, rfl, .operands hoperands (combine_eq_error.mp h)⟩
      · exact nomatch h
    · rintro ⟨failure, rfl, h⟩
      cases h with
      | operandCount h => exact absurd (congrArg List.length hoperands) h
      | operands hoperands' h =>
        obtain ⟨rfl, rfl⟩ : left = _ ∧ right = _ := by simpa using hoperands.symm.trans hoperands'
        exact .inl ⟨failure, combine_eq_error.mpr h, rfl⟩
  next hpair =>
    have hcount : op.operands.length ≠ 2 := by
      intro hcount
      obtain ⟨left, right, hoperands⟩ := List.length_eq_two.mp hcount
      exact hpair operator domain left right rfl hoperands
    rw [Except.error.injEq]
    constructor
    · rintro rfl
      exact ⟨_, rfl, .operandCount hcount⟩
    · rintro ⟨failure, rfl, h⟩
      cases h with
      | operandCount _ => rfl
      | operands hoperands _ => exact absurd (congrArg List.length hoperands) hcount

end Kernel

/-- An operation of an elementwise kind gives one tensor exactly if it reads two names that are bound to tensors of the
domain, these have a common shape, the result takes a number of bytes that can be told and stays within the limit, and
its shape can be addressed. The tensor is what the operator makes of the two, of that shape and of the domain. Of the
conditions, in this order, the first one that fails is the failure of the operation. -/
theorem Registry.evaluate_elementwise {registry : Registry} (limit : Nat) (env : Environment) {op : Operation}
    {operator : Operator} {domain : Domain} (hkind : registry.get? op.kind = some (.elementwise operator domain)) :
    ((∃ z, registry.evaluate limit env op = .ok [z]) ↔ ∃ left right x y shape length, op.operands = [left, right] ∧
      Kernel.Sized domain env left right x y shape length ∧ length ≤ limit ∧ shape.Allocatable) ∧
    (∀ zs, registry.evaluate limit env op = .ok zs → ∃ left right x y z length, op.operands = [left, right] ∧
      Kernel.Sized domain env left right x y z.shape length ∧ x.binary operator y = .ok z ∧ zs = [z] ∧
        z.type = x.resultType y ∧ domain.accepts z.type = true) ∧
    ∀ stop, registry.evaluate limit env op = .error stop ↔
      ∃ failure, stop = .failed failure ∧ Kernel.ElementwiseFault domain limit env op failure := by
  have hkernel : registry.evaluate limit env op = (Kernel.elementwise operator domain).evaluate limit env op := by
    rw [evaluate, Registry.lookup_eq_ok.mpr hkind, Outcome.ofExcept_ok, except_ok_bind]
  simp only [hkernel, Kernel.evaluate_elementwise_eq_ok]
  refine ⟨?_, ?_, fun stop => Kernel.evaluate_elementwise_eq_error⟩
  · constructor
    · rintro ⟨z, left, right, x, y, shape, length, z', hoperands, hsized, hlimit, hz, -⟩
      exact ⟨left, right, x, y, shape, length, hoperands, hsized, hlimit,
        (Tensor.exists_binary_iff hsized.broadcast).mp ⟨z', hz⟩⟩
    · rintro ⟨left, right, x, y, shape, length, hoperands, hsized, hlimit, hstorage⟩
      obtain ⟨z, hz⟩ : ∃ z, x.binary operator y = .ok z := (Tensor.exists_binary_iff hsized.broadcast).mpr hstorage
      exact ⟨z, left, right, x, y, shape, length, z, hoperands, hsized, hlimit, hz, rfl⟩
  · rintro zs ⟨left, right, x, y, shape, length, z, hoperands, hsized, -, hz, rfl⟩
    obtain ⟨htype, hshape⟩ := Tensor.form_binary hz
    obtain rfl : shape = z.shape := Option.some.inj (hsized.broadcast.symm.trans hshape)
    refine ⟨left, right, x, y, z, length, hoperands, hsized, hz, rfl, htype, ?_⟩
    rw [htype]
    exact Tensor.accepts_resultType hsized.leftType hsized.rightType

/-- Two bytes that are combined to a table of four, which a limit of three refuses. -/
theorem Registry.evaluate_elementwise_overLimit :
    let column : Tensor := ⟨.i8, [2, 1], [1#8, 2#8], rfl⟩
    let row : Tensor := ⟨.i8, [2], [3#8, 4#8], rfl⟩
    let env : Environment := (Bindings.empty.insert "column" column).insert "row" row
    let op : Operation := ⟨"arith.addi", ["column", "row"], ["table"], .empty, none⟩
    Registry.standard.get? op.kind = some (.elementwise .add .integer) ∧
      (∃ z, Registry.standard.evaluate 4 env op = .ok [z]) ∧
      Registry.standard.evaluate 3 env op = .error (.failed (.overLimit [2, 2] 4 3)) := by
  intro column row env op
  have hreads : Kernel.Reads env "column" "row" column row := ⟨by simp [env], by simp [env]⟩
  have hsized : Kernel.Sized .integer env "column" "row" column row [2, 2] 4 := ⟨⟨⟨hreads, rfl, rfl⟩, rfl⟩, rfl⟩
  have hkind : Registry.standard.get? op.kind = some (.elementwise .add .integer) := rfl
  have hgives := (evaluate_elementwise 4 env hkind).1
  have hfails := (evaluate_elementwise 3 env hkind).2.2
  refine ⟨hkind, hgives.mpr ⟨"column", "row", column, row, [2, 2], 4, rfl, hsized, Nat.le_refl 4, by decide⟩, ?_⟩
  exact (hfails _).mpr ⟨_, rfl, .operands rfl (.size hsized (by decide))⟩

end TensorEval
