import Mathlib.Data.List.Basic

/-! Texts between separators. A character that occurs on one side of a separator only tells the sides apart, and items that
do not contain the separator are told apart in a list of them. -/
namespace TensorEval.Text
variable {c : Char} {xs xs' ys ys' : List Char}

/-- The first separator ends what is before it. -/
theorem append_cons_inj_left (hxs : c ∉ xs) (hxs' : c ∉ xs') :
    xs ++ c :: ys = xs' ++ c :: ys' ↔ xs = xs' ∧ ys = ys' := by
  induction xs generalizing xs' with
  | nil =>
    cases xs' with
    | nil => simp
    | cons x' xs' => simp [List.ne_of_not_mem_cons hxs']
  | cons x xs ih =>
    cases xs' with
    | nil => simp [(List.ne_of_not_mem_cons hxs).symm]
    | cons x' xs' =>
      have hrest := ih (List.not_mem_of_not_mem_cons hxs) (List.not_mem_of_not_mem_cons hxs')
      rw [List.cons_append, List.cons_append, List.cons.injEq, hrest, List.cons.injEq, and_assoc]

/-- The last separator starts what is after it. -/
theorem append_cons_inj_right (hys : c ∉ ys) (hys' : c ∉ ys') :
    xs ++ c :: ys = xs' ++ c :: ys' ↔ xs = xs' ∧ ys = ys' := by
  rw [← List.reverse_inj, List.reverse_append, List.reverse_append, List.reverse_cons, List.reverse_cons,
    List.append_assoc, List.append_assoc, List.singleton_append, List.singleton_append,
    append_cons_inj_left (by simpa using hys) (by simpa using hys'), List.reverse_inj, List.reverse_inj, and_comm]

theorem mem_intercalate {separator : List Char} {items : List (List Char)} (h : c ∈ separator.intercalate items) :
    c ∈ separator ∨ ∃ cs ∈ items, c ∈ cs := by
  induction items with
  | nil => exact absurd h List.not_mem_nil
  | cons cs items ih =>
    cases items with
    | nil =>
      rw [List.intercalate_singleton] at h
      exact Or.inr ⟨cs, List.mem_cons_self, h⟩
    | cons ds items =>
      rw [List.intercalate_cons_cons] at h
      rcases List.mem_append.mp h with h | h
      · exact (List.mem_append.mp h).elim (fun h => Or.inr ⟨cs, List.mem_cons_self, h⟩) Or.inl
      · exact (ih h).imp_right fun ⟨es, hes, hc⟩ => ⟨es, List.mem_cons_of_mem cs hes, hc⟩

/-- As many items, without the first character of the separator in them. -/
theorem intercalate_inj {rest : List Char} {items items' : List (List Char)} (hlength : items.length = items'.length)
    (hitems : ∀ cs ∈ items, c ∉ cs) (hitems' : ∀ cs ∈ items', c ∉ cs) :
    (c :: rest).intercalate items = (c :: rest).intercalate items' ↔ items = items' := by
  induction items generalizing items' with
  | nil => simp [List.length_eq_zero_iff.mp hlength.symm]
  | cons cs items ih =>
    obtain ⟨cs', items', rfl⟩ := List.exists_cons_of_length_eq_add_one hlength.symm
    have hrest := ih (Nat.succ.inj hlength) (fun ds hds => hitems ds (List.mem_cons_of_mem cs hds))
      (fun ds hds => hitems' ds (List.mem_cons_of_mem cs' hds))
    cases items with
    | nil =>
      obtain rfl : items' = [] := List.length_eq_zero_iff.mp (Nat.succ.inj hlength).symm
      rw [List.intercalate_singleton, List.intercalate_singleton, List.cons.injEq, and_iff_left rfl]
    | cons ds items =>
      obtain ⟨ds', items', rfl⟩ := List.exists_cons_of_length_eq_add_one (Nat.succ.inj hlength).symm
      rw [List.intercalate_cons_cons, List.intercalate_cons_cons, List.append_assoc, List.append_assoc, List.cons_append,
        List.cons_append, append_cons_inj_left (hitems cs List.mem_cons_self) (hitems' cs' List.mem_cons_self),
        List.append_cancel_left_eq, hrest, List.cons.injEq cs]

end TensorEval.Text
