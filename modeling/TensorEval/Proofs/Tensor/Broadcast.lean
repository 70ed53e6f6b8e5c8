import TensorEval.Proofs.Tensor.Index

/-! Broadcasting as a least upper bound. Shapes are ordered by stretching, and of the shapes that two operands stretch to,
the one that they broadcast to is the least. So the operands may be swapped, and three of them may be grouped in any way,
also where they do not fit. A shape has storage if a wider one has. -/
namespace TensorEval.Shape

section Reversed
variable {as bs ds es fs : List Nat}

theorem Stretches.trans (h : Stretches es ds) (h' : Stretches ds fs) : Stretches es fs := by
  induction h generalizing fs with
  | nil => exact .nil
  | cons he _ ih =>
    obtain _ | ⟨hd, h'⟩ := h'
    exact .cons (by omega) (ih h')

theorem Stretches.antisymm (h : Stretches es ds) (h' : Stretches ds es) : es = ds := by
  induction h with
  | nil =>
    cases h'
    rfl
  | cons he _ ih =>
    obtain _ | ⟨hd, h'⟩ := h'
    exact congrArg₂ List.cons (by omega) (ih h')

private theorem stretches_cons {d e : Nat} : Stretches (e :: es) (d :: ds) ↔ (e = d ∨ e = 1) ∧ Stretches es ds := by
  constructor
  · intro h
    cases h with
    | cons he h => exact ⟨he, h⟩
  · rintro ⟨he, h⟩
    exact .cons he h

theorem stretches_iff : Stretches es ds ↔
    es.length ≤ ds.length ∧ ∀ i < es.length, es[i]? = ds[i]? ∨ es[i]? = some 1 := by
  induction es generalizing ds with
  | nil => exact iff_of_true .nil ⟨Nat.zero_le _, fun _ hi => absurd hi (Nat.not_lt_zero _)⟩
  | cons e es ih =>
    cases ds with
    | nil => exact iff_of_false nofun fun h => absurd h.1 (Nat.not_succ_le_zero _)
    | cons d ds =>
      rw [stretches_cons, ih, List.length_cons, List.length_cons, Nat.succ_le_succ_iff, Nat.forall_lt_succ_left]
      simp only [List.getElem?_cons_zero, List.getElem?_cons_succ, Option.some_inj]
      exact and_left_comm

private theorem exists_joinDim {a b d : Nat} (ha : a = d ∨ a = 1) (hb : b = d ∨ b = 1) :
    ∃ c, joinDim a b = some c ∧ (c = d ∨ c = 1) := by
  unfold joinDim
  split
  · exact ⟨a, rfl, ha⟩
  · exact ⟨b, if_pos (by omega), hb⟩

private theorem exists_joinReversed (ha : Stretches as ds) (hb : Stretches bs ds) :
    ∃ cs, joinReversed as bs = some cs ∧ Stretches cs ds := by
  induction ha generalizing bs with
  | nil => exact ⟨bs, by cases bs <;> rfl, hb⟩
  | cons ha has ih =>
    cases hb with
    | nil => exact ⟨_, rfl, .cons ha has⟩
    | cons hb hbs =>
      obtain ⟨c, hc, hcd⟩ := exists_joinDim ha hb
      obtain ⟨cs, hcs, hcds⟩ := ih hbs
      exact ⟨c :: cs, by rw [joinReversed, hc, hcs]; rfl, .cons hcd hcds⟩

private theorem Stretches.nonzeroSize_le (h : Stretches es ds) : nonzeroSize es ≤ nonzeroSize ds := by
  induction h with
  | nil => exact nonzeroSize_pos _
  | @cons d e ds es he _ ih =>
    rw [nonzeroSize_cons, nonzeroSize_cons]
    refine Nat.mul_le_mul ?_ ih
    split <;> split <;> omega

end Reversed

section Order
variable {a b s t : Shape}

theorem StretchesTo.trans (h : a.StretchesTo s) (h' : s.StretchesTo t) : a.StretchesTo t := Stretches.trans h h'

theorem StretchesTo.antisymm (h : s.StretchesTo t) (h' : t.StretchesTo s) : s = t :=
  List.reverse_inj.mp (Stretches.antisymm h h')

/-- Shapes that stretch to a common one broadcast, and the result stretches to it as well. -/
theorem exists_broadcast (ha : a.StretchesTo t) (hb : b.StretchesTo t) :
    ∃ s, broadcast a b = some s ∧ s.StretchesTo t := by
  obtain ⟨cs, hcs, hct⟩ := exists_joinReversed ha hb
  refine ⟨cs.reverse, by rw [broadcast, hcs]; rfl, ?_⟩
  rwa [StretchesTo, List.reverse_reverse]

/-- What two operands broadcast to is the least of the shapes that both stretch to. -/
theorem stretchesTo_iff_of_broadcast (h : broadcast a b = some s) :
    s.StretchesTo t ↔ a.StretchesTo t ∧ b.StretchesTo t := by
  obtain ⟨ha, hb⟩ := stretchesTo_of_broadcast h
  refine ⟨fun hs => ⟨ha.trans hs, hb.trans hs⟩, fun ⟨hat, hbt⟩ => ?_⟩
  obtain ⟨s', hs', hst⟩ := exists_broadcast hat hbt
  exact Option.some.inj (h.symm.trans hs') ▸ hst

theorem broadcast_self (s : Shape) : broadcast s s = some s := by
  obtain ⟨t, ht, hts⟩ := exists_broadcast (StretchesTo.refl s) (StretchesTo.refl s)
  rw [ht, hts.antisymm (stretchesTo_of_broadcast ht).1]

private theorem nonzeroSize_reverse (s : Shape) : nonzeroSize s.reverse = nonzeroSize s := by
  rw [nonzeroSize, List.filter_reverse, size_reverse]
  rfl

/-- Storage that is enough for a wider shape is enough. -/
theorem StretchesTo.allocatable (h : s.StretchesTo t) (ht : t.Allocatable) : s.Allocatable := by
  have hle := Stretches.nonzeroSize_le h
  rw [nonzeroSize_reverse, nonzeroSize_reverse] at hle
  exact Nat.lt_of_le_of_lt hle ht

end Order

section Join
variable {a b c s t : Shape}

/-- Whether `a` has no more dimensions than `s`, and each of them, counted from the right, is that of `s` or 1. -/
def Below (a s : Shape) : Prop :=
  a.length ≤ s.length ∧ ∀ i < a.length, a.reverse[i]? = s.reverse[i]? ∨ a.reverse[i]? = some 1

/-- The least of the shapes that two shapes are below. -/
structure IsJoin (a b s : Shape) : Prop where
  left : a.Below s
  right : b.Below s
  least : ∀ t, a.Below t → b.Below t → s.Below t

theorem stretchesTo_iff_below : a.StretchesTo s ↔ a.Below s := by
  rw [StretchesTo, stretches_iff, List.length_reverse, List.length_reverse]
  rfl

/-- A shape is what two others broadcast to if it stretches to the shapes that both of them stretch to. -/
theorem broadcast_eq_some_iff : broadcast a b = some s ↔ ∀ t, s.StretchesTo t ↔ a.StretchesTo t ∧ b.StretchesTo t := by
  refine ⟨fun h t => stretchesTo_iff_of_broadcast h, fun h => ?_⟩
  obtain ⟨ha, hb⟩ := (h s).mp (.refl s)
  obtain ⟨s', hs', hle⟩ := exists_broadcast ha hb
  have hge : s.StretchesTo s' := (h s').mpr (stretchesTo_of_broadcast hs')
  rw [hs', hle.antisymm hge]

theorem broadcast_eq_some_iff_isJoin : broadcast a b = some s ↔ IsJoin a b s := by
  rw [broadcast_eq_some_iff]
  simp only [stretchesTo_iff_below]
  constructor
  · intro h
    obtain ⟨ha, hb⟩ := (h s).mp (stretchesTo_iff_below.mp (.refl s))
    exact ⟨ha, hb, fun t hat hbt => (h t).mpr ⟨hat, hbt⟩⟩
  · intro h t
    simp only [← stretchesTo_iff_below]
    refine ⟨fun hst => ?_, fun ⟨hat, hbt⟩ => ?_⟩
    · exact ⟨(stretchesTo_iff_below.mpr h.left).trans hst, (stretchesTo_iff_below.mpr h.right).trans hst⟩
    · exact stretchesTo_iff_below.mpr (h.least t (stretchesTo_iff_below.mp hat) (stretchesTo_iff_below.mp hbt))

theorem exists_broadcast_iff : (∃ s, broadcast a b = some s) ↔ ∃ t, a.StretchesTo t ∧ b.StretchesTo t := by
  refine ⟨fun ⟨s, hs⟩ => ⟨s, stretchesTo_of_broadcast hs⟩, fun ⟨t, ha, hb⟩ => ?_⟩
  obtain ⟨s, hs, -⟩ := exists_broadcast ha hb
  exact ⟨s, hs⟩

private theorem bind_broadcast_eq_some_iff : (broadcast a b).bind (broadcast · c) = some s ↔
    ∀ t, s.StretchesTo t ↔ a.StretchesTo t ∧ b.StretchesTo t ∧ c.StretchesTo t := by
  rw [Option.bind_eq_some_iff]
  constructor
  · rintro ⟨u, hu, hs⟩ t
    rw [broadcast_eq_some_iff.mp hs, broadcast_eq_some_iff.mp hu, and_assoc]
  · intro h
    obtain ⟨ha, hb, -⟩ := (h s).mp (.refl s)
    obtain ⟨u, hu, -⟩ := exists_broadcast ha hb
    refine ⟨u, hu, broadcast_eq_some_iff.mpr fun t => ?_⟩
    rw [h, broadcast_eq_some_iff.mp hu, and_assoc]

theorem broadcast_assoc (a b c : Shape) :
    (broadcast a b).bind (broadcast · c) = (broadcast b c).bind (broadcast a ·) := by
  have hswap : (broadcast b c).bind (broadcast a ·) = (broadcast b c).bind (broadcast · a) := by
    simp only [broadcast_comm a]
  refine Option.ext fun s => ?_
  rw [hswap, bind_broadcast_eq_some_iff, bind_broadcast_eq_some_iff]
  refine forall_congr' fun t => iff_congr Iff.rfl ?_
  rw [and_comm, and_assoc]

theorem nil_broadcast (s : Shape) : broadcast [] s = some s := by
  rw [broadcast, List.reverse_nil, joinReversed, Option.map_some, List.reverse_reverse]

/-- Two shapes broadcast exactly if both are below a common one, and then to the least of these. So broadcasting is
commutative and idempotent, a single element changes nothing, and three shapes give the same shape in either grouping, or
none in both. -/
theorem broadcast_isJoin (a b : Shape) :
    ((∃ s, broadcast a b = some s) ↔ ∃ t, a.Below t ∧ b.Below t) ∧ (∀ s, broadcast a b = some s ↔ IsJoin a b s) ∧
    broadcast a b = broadcast b a ∧ broadcast a a = some a ∧ broadcast [] a = some a ∧ broadcast a [] = some a ∧
    ∀ c, (do broadcast (← broadcast a b) c) = (do broadcast a (← broadcast b c)) := by
  refine ⟨?_, fun s => broadcast_eq_some_iff_isJoin, broadcast_comm a b, broadcast_self a, nil_broadcast a, ?_,
    broadcast_assoc a b⟩
  · rw [exists_broadcast_iff]
    simp only [stretchesTo_iff_below]
  · rw [broadcast_comm, nil_broadcast]

/-- An empty row is not stretched to two, but a single one is stretched to none. -/
example : broadcast [0] [2] = none ∧ broadcast [4, 1] [0] = some [4, 0] := by decide

end Join

end TensorEval.Shape
