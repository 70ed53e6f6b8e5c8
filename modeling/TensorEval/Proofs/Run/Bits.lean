import TensorEval.Proofs.Run.View
import TensorEval.Proofs.Tensor.Bits

/-! Runs and the payloads of NaNs. Environments that bind the same names to tensors of the same bits lead every operation,
and every sequence of operations, to the same failure or to tensors of the same bits. -/
namespace TensorEval

/-- Two computations that fail for the same reason, or whose results are related. -/
inductive Alike {ε α : Type} (R : α → α → Prop) : Except ε α → Except ε α → Prop where
  | failed (e : ε) : Alike R (.error e) (.error e)
  | done {a b : α} (h : R a b) : Alike R (.ok a) (.ok b)

private theorem alike_iff_map {ε α β : Type} {R : α → α → Prop} {view : α → β} (hview : ∀ a b, R a b ↔ view a = view b)
    {f g : Except ε α} : Alike R f g ↔ f.map view = g.map view := by
  rw [except_map_eq_map]
  constructor
  · rintro (⟨e⟩ | ⟨h⟩)
    · exact Or.inl ⟨e, rfl, rfl⟩
    · exact Or.inr ⟨_, _, rfl, rfl, (hview _ _).mp h⟩
  · rintro (⟨e, rfl, rfl⟩ | ⟨a, b, rfl, rfl, h⟩)
    · exact .failed e
    · exact .done ((hview a b).mpr h)

private theorem Tensor.forall₂_sameBits_iff (xs ys : List Tensor) :
    List.Forall₂ (fun x y => x.sameBits y = true) xs ys ↔
    xs.map withoutPayloads = ys.map withoutPayloads := by
  simp only [sameBits_iff_withoutPayloads]
  rw [← List.forall₂_eq_eq_eq, List.forall₂_map_left_iff, List.forall₂_map_right_iff]

/-- Two environments that bind the same names, each to tensors of the same bits. -/
def Environment.SameBits (env env' : Environment) : Prop :=
  ∀ name, Option.Rel (fun x y => x.sameBits y = true) (env.get? name) (env'.get? name)

private theorem Environment.sameBits_iff_map (env env' : Environment) :
    env.SameBits env' ↔ env.map Tensor.withoutPayloads = env'.map Tensor.withoutPayloads := by
  have hname (x x' : Option Tensor) : Option.Rel (fun x y => x.sameBits y = true) x x' ↔
      x.map Tensor.withoutPayloads = x'.map Tensor.withoutPayloads := by
    cases x <;> cases x' <;> simp [Tensor.sameBits_iff_withoutPayloads]
  simp only [SameBits, hname, ← Bindings.get?_map]
  exact ⟨Bindings.ext_get?, fun h name => congrArg (·.get? name) h⟩

theorem Environment.SameBits.refl (env : Environment) : env.SameBits env := (sameBits_iff_map env env).mpr rfl

theorem Environment.SameBits.insert {env env' : Environment} (h : env.SameBits env') (name : String) {x y : Tensor}
    (hxy : x.sameBits y = true) : SameBits (Bindings.insert env name x) (Bindings.insert env' name y) := by
  rw [sameBits_iff_map, Bindings.map_insert, Bindings.map_insert, (sameBits_iff_map env env').mp h,
    Tensor.sameBits_iff_withoutPayloads.mp hxy]

private theorem Tensor.respected_withoutPayloads : Respected withoutPayloads where
  form h := form_of_sameBits (sameBits_iff_withoutPayloads.mpr h)
  binary op := binary_map_withoutPayloads op

/-- To have the same bits, where every NaN counts as every other one, is an equivalence that all computations respect: the
operators and the casts, the evaluation of an operation under any registry and limit, and the steps of a run. So nothing
depends on the payload of a NaN but the payloads of other NaNs. -/
theorem sameBits_respected :
    Equivalence (fun x y : Tensor => x.sameBits y = true) ∧
    (∀ (op : Operator) (x x' y y' : Tensor), x.sameBits x' = true → y.sameBits y' = true →
      Alike (fun z z' => z.sameBits z' = true) (x.binary op y) (x'.binary op y')) ∧
    (∀ (type : ElementType) (x x' : Tensor), x.sameBits x' = true →
      (x.cast type).sameBits (x'.cast type) = true) ∧
    (∀ (registry : Registry) (limit : Nat) (op : Operation) (env env' : Environment), env.SameBits env' →
      Alike (List.Forall₂ fun z z' => z.sameBits z' = true) (registry.evaluate limit env op)
        (registry.evaluate limit env' op)) ∧
    ∀ (e : Evaluator) (index : Nat) (operations : List Operation) (env env' : Environment), env.SameBits env' →
      Alike Environment.SameBits (e.steps index env operations) (e.steps index env' operations) := by
  refine ⟨Tensor.sameBits_equivalence, fun op x x' y y' hx hy => ?_, fun type x x' => Tensor.sameBits_cast type,
    fun registry limit op env env' h => ?_, fun e index operations env env' h => ?_⟩
  · refine (alike_iff_map (R := fun z z' => Tensor.sameBits z z' = true) fun _ _ =>
      Tensor.sameBits_iff_withoutPayloads).mpr ?_
    exact Tensor.binary_map_withoutPayloads op (Tensor.sameBits_iff_withoutPayloads.mp hx)
      (Tensor.sameBits_iff_withoutPayloads.mp hy)
  · refine (alike_iff_map Tensor.forall₂_sameBits_iff).mpr ?_
    exact registry.evaluate_map_view Tensor.respected_withoutPayloads limit op ((env.sameBits_iff_map env').mp h)
  · refine (alike_iff_map Environment.sameBits_iff_map).mpr ?_
    exact e.steps_map_view Tensor.respected_withoutPayloads index operations ((env.sameBits_iff_map env').mp h)

/-- Two NaNs of different payloads are added to a number, in place of one another. -/
theorem sameBits_respected_sum :
    let quiet : Tensor := ⟨.f16, [1], [FloatWord.ofBits .binary16 0x7E01], rfl⟩
    let signaling : Tensor := ⟨.f16, [1], [FloatWord.ofBits .binary16 0xFC02], rfl⟩
    let one : Tensor := ⟨.f32, [], [FloatWord.ofBits .binary32 0x3F800000], rfl⟩
    let env : Tensor → Environment := fun x => (Bindings.empty.insert "one" one).insert "x" x
    let op : Operation := ⟨"arith.addf", ["x", "one"], ["sum"], .empty, none⟩
    quiet.sameBits signaling = true ∧ (env quiet).SameBits (env signaling) ∧
      Alike (List.Forall₂ fun z z' => z.sameBits z' = true) (Registry.standard.evaluate 2 (env quiet) op)
        (Registry.standard.evaluate 2 (env signaling) op) := by
  intro quiet signaling one env op
  have hbits : quiet.sameBits signaling = true := by decide
  have henv : (env quiet).SameBits (env signaling) := (Environment.SameBits.refl _).insert "x" hbits
  exact ⟨hbits, henv, sameBits_respected.2.2.2.1 .standard 2 op _ _ henv⟩

end TensorEval
