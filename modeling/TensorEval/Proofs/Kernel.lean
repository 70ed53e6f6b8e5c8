import TensorEval.Kernel.Evaluate
import TensorEval.Proofs.Outcome

/-! What it takes for a kernel to give results, step by step. -/
namespace TensorEval.Kernel
variable {limit : Nat} {env : Environment} {op : Operation}

theorem materialize_eq_ok {value : Attribute} {x : Tensor} :
    materialize limit value = .ok x ↔ ∃ shape type fill, constantParts value = .ok (shape, type, fill) ∧
      checkSize limit shape type = .ok () ∧ Tensor.full shape type fill = .ok x := by
  unfold materialize
  rw [except_bind_eq_ok, Prod.exists]
  simp only [Prod.exists, except_check_eq_ok, Outcome.ofExcept_eq_ok]

theorem commonShape_eq_ok {x y : Tensor} {shape : Shape} :
    commonShape x y = .ok shape ↔ Shape.broadcast x.shape y.shape = some shape := by
  unfold commonShape
  cases Shape.broadcast x.shape y.shape <;> simp

theorem commonShape_eq_error {x y : Tensor} {failure : Failure} :
    commonShape x y = .error failure ↔
      Shape.broadcast x.shape y.shape = none ∧ failure = .incompatibleShapes x.shape y.shape := by
  unfold commonShape
  cases Shape.broadcast x.shape y.shape <;> simp [eq_comm]

theorem checkDomain_eq_ok {domain : Domain} {name : String} {x : Tensor} :
    checkDomain op domain name x = .ok () ↔ domain.accepts x.type = true := by
  unfold checkDomain
  cases domain.accepts x.type <;> simp

theorem checkDomain_eq_error {domain : Domain} {name : String} {x : Tensor} {failure : Failure} :
    checkDomain op domain name x = .error failure ↔
      domain.accepts x.type = false ∧ failure = .operandType op.displayName name x.type domain := by
  unfold checkDomain
  cases domain.accepts x.type <;> simp [eq_comm]

theorem combine_eq_ok {operator : Operator} {domain : Domain} {left right : String} {z : Tensor} :
    combine operator domain limit env op left right = .ok z ↔ ∃ x, env.lookup left = .ok x ∧
      ∃ y, env.lookup right = .ok y ∧ checkDomain op domain left x = .ok () ∧ checkDomain op domain right y = .ok () ∧
        ∃ shape, commonShape x y = .ok shape ∧ checkSize limit shape (x.resultType y) = .ok () ∧
          x.binary operator y = .ok z := by
  unfold combine
  rw [except_bind_eq_ok]
  refine exists_congr fun x => and_congr_right fun _ => ?_
  rw [except_bind_eq_ok]
  refine exists_congr fun y => and_congr_right fun _ => ?_
  rw [except_check_eq_ok, except_check_eq_ok, except_bind_eq_ok]
  refine and_congr_right fun _ => and_congr_right fun _ => exists_congr fun shape => and_congr_right fun _ => ?_
  rw [except_check_eq_ok]

/-- A constant gives its tensor if nothing is to be read, and an elementwise kernel combines two operands. -/
theorem evaluate_eq_ok {kernel : Kernel} {xs : List Tensor} :
    kernel.evaluate limit env op = .ok xs ↔
      (kernel = .constant ∧ op.operands = [] ∧
        ∃ value x, op.attributes.get? valueName = some value ∧ materialize limit value = .ok x ∧ xs = [x]) ∨
      ∃ operator domain left right z, kernel = .elementwise operator domain ∧ op.operands = [left, right] ∧
        combine operator domain limit env op left right = .ok z ∧ xs = [z] := by
  have single {r : Outcome Tensor} : (r >>= fun x => pure [x]) = .ok xs ↔ ∃ x, r = .ok x ∧ xs = [x] := by
    rw [except_bind_eq_ok]
    exact exists_congr fun x => and_congr_right fun _ => by rw [except_pure, Except.ok.injEq, eq_comm]
  unfold evaluate
  split
  next hoperands =>
    simp only [except_bind_eq_ok, Outcome.ofExcept_eq_ok, constantValue_eq_ok, single]
    simp [hoperands]
  next operator domain left right hoperands =>
    simp only [single, Outcome.ofExcept_eq_ok]
    simp [hoperands]
  next hconstant helementwise =>
    constructor
    · exact nofun
    · rintro (⟨rfl, hoperands, -⟩ | ⟨operator, domain, left, right, -, rfl, hoperands, -⟩)
      · exact (hconstant rfl hoperands).elim
      · exact (helementwise _ _ _ _ rfl hoperands).elim

end TensorEval.Kernel
