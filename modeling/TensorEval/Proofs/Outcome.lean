import Mathlib.Data.List.Forall2
import TensorEval.Failure

/-! Opening computations that can fail: a sequence of steps gives a result exactly when
every step gives one. -/
namespace TensorEval

section Except
variable {ε δ α β : Type}

theorem except_bind_eq_ok {x : Except ε α} {f : α → Except ε β} {b : β} :
    (x >>= f) = .ok b ↔ ∃ a, x = .ok a ∧ f a = .ok b := by
  cases x with
  | error e => simp [bind, Except.bind]
  | ok a => simp [bind, Except.bind]

/-- A check in front of a computation. -/
theorem except_check_eq_ok {x : Except ε Unit} {f : Unit → Except ε β} {b : β} :
    (x >>= f) = .ok b ↔ x = .ok () ∧ f () = .ok b := by
  rw [except_bind_eq_ok]
  exact ⟨fun ⟨(), hx, hf⟩ => ⟨hx, hf⟩, fun ⟨hx, hf⟩ => ⟨(), hx, hf⟩⟩

theorem except_bind_eq_error {x : Except ε α} {f : α → Except ε β} {e : ε} :
    (x >>= f) = .error e ↔ x = .error e ∨ ∃ a, x = .ok a ∧ f a = .error e := by
  cases x with
  | error e => simp [bind, Except.bind]
  | ok a => simp [bind, Except.bind]

theorem except_check_eq_error {x : Except ε Unit} {f : Unit → Except ε β} {e : ε} :
    (x >>= f) = .error e ↔ x = .error e ∨ x = .ok () ∧ f () = .error e := by
  rw [except_bind_eq_error]
  exact or_congr_right ⟨fun ⟨(), hx, hf⟩ => ⟨hx, hf⟩, fun ⟨hx, hf⟩ => ⟨(), hx, hf⟩⟩

@[simp] theorem except_ok_bind (a : α) (f : α → Except ε β) : (Except.ok a >>= f) = f a := rfl

@[simp] theorem except_error_bind (e : ε) (f : α → Except ε β) :
    ((Except.error e : Except ε α) >>= f) = .error e := rfl

@[simp] theorem except_pure (a : α) : (pure a : Except ε α) = .ok a := rfl

@[simp] theorem except_throw (e : ε) : (throw e : Except ε α) = .error e := rfl

theorem except_map_eq_ok {x : Except ε α} {f : α → β} {b : β} : x.map f = .ok b ↔ ∃ a, x = .ok a ∧ f a = b := by
  cases x with
  | error e =>
    change (Except.error e : Except ε β) = .ok b ↔ _
    simp
  | ok a =>
    change (Except.ok (f a) : Except ε β) = .ok b ↔ _
    simp

@[simp] theorem except_map_ok (f : α → β) (a : α) : (Except.ok a : Except ε α).map f = .ok (f a) := rfl

@[simp] theorem except_map_error (f : α → β) (e : ε) : (Except.error e : Except ε α).map f = .error e := rfl

/-- Two computations that fail alike, or have results that agree under a view. -/
theorem except_map_eq_map {x y : Except ε α} {view : α → β} :
    x.map view = y.map view ↔
      (∃ e, x = .error e ∧ y = .error e) ∨ ∃ a b, x = .ok a ∧ y = .ok b ∧ view a = view b := by
  cases x <;> cases y <;> simp [eq_comm]

/-- Computations agree under a view if their first steps do and the rest takes agreeing results to agreeing ones. -/
theorem except_bind_map_congr {γ : Type} {x y : Except ε α} {f g : α → Except ε β} {view : α → γ} {view' : β → δ}
    (h : x.map view = y.map view) (hrest : ∀ a b, view a = view b → (f a).map view' = (g b).map view') :
    (x >>= f).map view' = (y >>= g).map view' := by
  rcases except_map_eq_map.mp h with ⟨e, rfl, rfl⟩ | ⟨a, b, rfl, rfl, hab⟩
  · rfl
  · exact hrest a b hab

theorem except_bind_map_congr_right {x : Except ε α} {f g : α → Except ε β} {view : β → δ}
    (h : ∀ a, (f a).map view = (g a).map view) : (x >>= f).map view = (x >>= g).map view := by
  cases x with
  | error e => rfl
  | ok a => exact h a

theorem except_mapError_map_congr {x y : Except ε α} {f : ε → δ} {view : α → β} (h : x.map view = y.map view) :
    (x.mapError f).map view = (y.mapError f).map view := by
  rcases except_map_eq_map.mp h with ⟨e, rfl, rfl⟩ | ⟨a, b, rfl, rfl, hab⟩
  · rfl
  · exact congrArg Except.ok hab

theorem exists_of_mem_forall₂ {R : α → β → Prop} {xs : List α} {ys : List β} (h : List.Forall₂ R xs ys) {y : β}
    (hy : y ∈ ys) : ∃ x ∈ xs, R x y := by
  induction h with
  | nil => exact absurd hy List.not_mem_nil
  | cons hxy _ ih =>
    rcases List.mem_cons.mp hy with rfl | hy
    · exact ⟨_, List.mem_cons_self, hxy⟩
    · obtain ⟨x, hx, hxy⟩ := ih hy
      exact ⟨x, List.mem_cons_of_mem _ hx, hxy⟩

theorem forall₂_imp_of_mem {R S : α → β → Prop} {xs : List α} {ys : List β} (h : List.Forall₂ R xs ys)
    (himp : ∀ x ∈ xs, ∀ y, R x y → S x y) : List.Forall₂ S xs ys := by
  induction h with
  | nil => exact List.Forall₂.nil
  | cons hxy _ ih =>
    exact List.Forall₂.cons (himp _ List.mem_cons_self _ hxy) (ih fun x hx => himp x (List.mem_cons_of_mem _ hx))

/-- A list of computations gives results when each of them does. -/
theorem except_mapM_eq_ok {f : α → Except ε β} {xs : List α} {ys : List β} :
    xs.mapM f = .ok ys ↔ List.Forall₂ (fun x y => f x = .ok y) xs ys := by
  induction xs generalizing ys with
  | nil =>
    rw [List.mapM_nil, List.forall₂_nil_left_iff, except_pure, Except.ok.injEq]
    exact eq_comm
  | cons x xs ih =>
    rw [List.mapM_cons, except_bind_eq_ok, List.forall₂_cons_left_iff]
    constructor
    · rintro ⟨y, hy, h⟩
      obtain ⟨zs, hzs, h⟩ := except_bind_eq_ok.mp h
      obtain rfl := Except.ok.inj h
      exact ⟨y, zs, hy, ih.mp hzs, rfl⟩
    · rintro ⟨y, zs, hy, hzs, rfl⟩
      exact ⟨y, hy, except_bind_eq_ok.mpr ⟨zs, ih.mpr hzs, rfl⟩⟩

theorem exists_except_mapM_iff {f : α → Except ε β} {xs : List α} :
    (∃ ys, xs.mapM f = .ok ys) ↔ ∀ x ∈ xs, ∃ y, f x = .ok y := by
  induction xs with
  | nil => exact iff_of_true ⟨[], rfl⟩ fun x hx => absurd hx List.not_mem_nil
  | cons x xs ih =>
    simp only [except_mapM_eq_ok, List.forall₂_cons_left_iff, List.forall_mem_cons, ← ih]
    constructor
    · rintro ⟨_, y, ys, hy, hys, -⟩
      exact ⟨⟨y, hy⟩, ys, hys⟩
    · rintro ⟨⟨y, hy⟩, ys, hys⟩
      exact ⟨_, y, ys, hy, hys, rfl⟩

/-- The first of some elements with a property is the first element, or else the first of the others. -/
theorem exists_split_cons {first : α} {rest : List α} {p : List α → α → Prop} :
    (∃ before x after, first :: rest = before ++ x :: after ∧ p before x) ↔
      p [] first ∨ ∃ before x after, rest = before ++ x :: after ∧ p (first :: before) x := by
  constructor
  · rintro ⟨before, x, after, heq, h⟩
    cases before with
    | nil =>
      obtain ⟨rfl, -⟩ := List.cons.inj heq
      exact .inl h
    | cons other before =>
      obtain ⟨rfl, rfl⟩ := List.cons.inj heq
      exact .inr ⟨before, x, after, rfl, h⟩
  · rintro (h | ⟨before, x, after, rfl, h⟩)
    · exact ⟨[], first, rest, rfl, h⟩
    · exact ⟨first :: before, x, after, rfl, h⟩

/-- A list of computations fails as the first of them that fails. -/
theorem except_mapM_eq_error {f : α → Except ε β} {xs : List α} {e : ε} :
    xs.mapM f = .error e ↔
      ∃ before x after, xs = before ++ x :: after ∧ (∀ y ∈ before, ∃ z, f y = .ok z) ∧ f x = .error e := by
  induction xs with
  | nil => simp
  | cons x xs ih =>
    have hrest {y : β} : (xs.mapM f >>= fun ys => pure (y :: ys)) = .error e ↔ xs.mapM f = .error e := by
      rw [except_bind_eq_error]
      exact or_iff_left fun ⟨_, _, h⟩ => nomatch h
    rw [List.mapM_cons, except_bind_eq_error, exists_split_cons]
    simp only [hrest, ih, List.forall_mem_cons]
    refine or_congr (and_iff_right (List.forall_mem_nil _)).symm ⟨?_, ?_⟩
    · rintro ⟨y, hy, before, x', after, hsplit, hbefore, h⟩
      exact ⟨before, x', after, hsplit, ⟨⟨y, hy⟩, hbefore⟩, h⟩
    · rintro ⟨before, x', after, hsplit, ⟨⟨y, hy⟩, hbefore⟩, h⟩
      exact ⟨y, hy, before, x', after, hsplit, hbefore, h⟩

theorem except_mapM_congr {f g : α → Except ε β} {xs : List α} (h : ∀ x ∈ xs, f x = g x) : xs.mapM f = xs.mapM g := by
  induction xs with
  | nil => rfl
  | cons x xs ih =>
    rw [List.mapM_cons, List.mapM_cons, h x List.mem_cons_self, ih fun y hy => h y (List.mem_cons_of_mem x hy)]

theorem except_mapM_map_congr {f g : α → Except ε β} {view : β → δ} {xs : List α}
    (h : ∀ x, (f x).map view = (g x).map view) : (xs.mapM f).map (List.map view) = (xs.mapM g).map (List.map view) := by
  induction xs with
  | nil => rfl
  | cons x xs ih =>
    rw [List.mapM_cons, List.mapM_cons]
    refine except_bind_map_congr (h x) fun y z hyz => ?_
    refine except_bind_map_congr ih fun ys zs hyzs => ?_
    exact congrArg Except.ok (congrArg₂ List.cons hyz hyzs)

theorem mapError_eq_ok {x : Except ε α} {f : ε → δ} {a : α} :
    x.mapError f = .ok a ↔ x = .ok a := by
  cases x with
  | ok b =>
    change (Except.ok b : Except δ α) = .ok a ↔ _
    simp
  | error e =>
    change Except.error (f e) = Except.ok a ↔ _
    simp

theorem mapError_eq_error {x : Except ε α} {f : ε → δ} {d : δ} :
    x.mapError f = .error d ↔ ∃ e, x = .error e ∧ f e = d := by
  cases x with
  | ok b =>
    change (Except.ok b : Except δ α) = .error d ↔ _
    simp
  | error e =>
    change Except.error (f e) = Except.error d ↔ _
    simp

/-- The computation ends in a result with `P` or in an error with `E`. -/
def Ends (E : ε → Prop) (P : α → Prop) : Except ε α → Prop
  | .ok a => P a
  | .error e => E e

variable {E : ε → Prop} {P : α → Prop}

theorem Ends.bind {Q : β → Prop} {x : Except ε α} {f : α → Except ε β}
    (hx : Ends E P x) (hf : ∀ a, P a → Ends E Q (f a)) : Ends E Q (x >>= f) := by
  cases x with
  | ok a => exact hf a hx
  | error e => exact hx

theorem Ends.map {Q : β → Prop} {x : Except ε α} {f : α → β}
    (hx : Ends E P x) (hf : ∀ a, P a → Q (f a)) : Ends E Q (x.map f) := by
  cases x with
  | ok a => exact hf a hx
  | error e => exact hx

theorem Ends.mapError {D : δ → Prop} {x : Except ε α} {f : ε → δ}
    (hx : Ends E P x) (hf : ∀ e, E e → D (f e)) : Ends D P (x.mapError f) := by
  cases x with
  | ok a => exact hx
  | error e => exact hf e hx

theorem Ends.imp {Q : α → Prop} {x : Except ε α} (hx : Ends E P x) (h : ∀ a, P a → Q a) : Ends E Q x := by
  cases x with
  | ok a => exact h a hx
  | error e => exact hx

theorem Ends.of_ok {x : Except ε α} {a : α} (hx : Ends E P x) (h : x = .ok a) : P a := by
  subst h
  exact hx

theorem Ends.of_error {x : Except ε α} {e : ε} (hx : Ends E P x) (h : x = .error e) : E e := by
  subst h
  exact hx

end Except

namespace Outcome
variable {α : Type}

theorem ofExcept_eq_ok {x : Except Failure α} {a : α} : ofExcept x = .ok a ↔ x = .ok a :=
  mapError_eq_ok

theorem ofExcept_eq_error {x : Except Failure α} {stop : Stop} :
    ofExcept x = .error stop ↔ ∃ f, x = .error f ∧ .failed f = stop :=
  mapError_eq_error

@[simp] theorem ofExcept_ok (a : α) : ofExcept (.ok a) = .ok a := rfl

@[simp] theorem ofExcept_error (f : Failure) : ofExcept (.error f : Except Failure α) = .error (.failed f) :=
  rfl

theorem ofExcept_ne_unaddressable (x : Except Failure α) (s : Shape) :
    ofExcept x ≠ .error (.unaddressable s) := by
  cases x <;> simp

theorem atOperation_eq_ok {x : Outcome α} {index : Nat} {name : String} {a : α} :
    x.atOperation index name = .ok a ↔ x = .ok a :=
  mapError_eq_ok

theorem atOperation_eq_unaddressable {x : Outcome α} {index : Nat} {name : String} {s : Shape} :
    x.atOperation index name = .error (.unaddressable s) ↔ x = .error (.unaddressable s) := by
  rw [atOperation, mapError_eq_error]
  constructor
  · rintro ⟨stop, hx, hstop⟩
    cases stop with
    | failed f => simp at hstop
    | unaddressable t =>
      obtain rfl : t = s := by simpa using hstop
      exact hx
  · intro hx
    exact ⟨_, hx, rfl⟩

theorem atOperation_eq_failed {x : Outcome α} {index : Nat} {name : String} {failure : Failure} :
    x.atOperation index name = .error (.failed failure) ↔
      ∃ source, x = .error (.failed source) ∧ failure = .atOperation index name source := by
  rw [atOperation, mapError_eq_error]
  constructor
  · rintro ⟨stop, hx, hstop⟩
    cases stop with
    | failed source => exact ⟨source, hx, (Stop.failed.inj hstop).symm⟩
    | unaddressable s => exact nomatch hstop
  · rintro ⟨source, hx, rfl⟩
    exact ⟨_, hx, rfl⟩

end Outcome

end TensorEval
