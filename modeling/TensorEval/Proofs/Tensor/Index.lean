import Mathlib.Data.List.Forall2
import TensorEval.Proofs.Element
import TensorEval.Proofs.Tensor.Storage

/-! Indices of tensors: the row-major position of an index, and the index that an operand is read at when it is stretched
to a wider shape. Shapes are aligned at the last dimension, so the proofs go over the dimensions innermost first. -/
namespace TensorEval

namespace Shape

/-- Whether an index has one entry below each dimension. -/
def Indexes (s : Shape) (index : List Nat) : Prop := List.Forall₂ (· < ·) index s

instance (s : Shape) (index : List Nat) : Decidable (s.Indexes index) :=
  inferInstanceAs (Decidable (List.Forall₂ (· < ·) index s))

def position (s : Shape) (index : List Nat) : Nat := (s.zip index).foldl (fun k (d, i) => k * d + i) 0

/-- The index of a wider shape aligned from the right to an operand of shape `a`, with index 0 on every dimension that
is 1. -/
def aligned (a : Shape) (index : List Nat) : List Nat :=
  List.zipWith (fun d i => if d = 1 then 0 else i) a (index.drop (index.length - a.length))

section Reversed

/-- The position of an index, dimensions and entries innermost first. -/
private def innerPosition : List Nat → List Nat → Nat
  | d :: ds, i :: is => innerPosition ds is * d + i
  | _, _ => 0

private def innerAligned : List Nat → List Nat → List Nat := List.zipWith fun d i => if d = 1 then 0 else i

/-- Dimensions that stretch to wider ones: each is the wider one or 1, and there are not more of them. -/
inductive Stretches : List Nat → List Nat → Prop
  | nil {ds : List Nat} : Stretches [] ds
  | cons {d e : Nat} {ds es : List Nat} : e = d ∨ e = 1 → Stretches es ds → Stretches (e :: es) (d :: ds)

theorem Stretches.refl (ds : List Nat) : Stretches ds ds := by
  induction ds with
  | nil => exact .nil
  | cons d ds ih => exact .cons (Or.inl rfl) ih

theorem Stretches.length_le {es ds : List Nat} (h : Stretches es ds) : es.length ≤ ds.length := by
  induction h with
  | nil => exact Nat.zero_le _
  | cons _ _ ih => exact Nat.succ_le_succ ih

variable {ds es is : List Nat}

private theorem position_eq_inner (s : Shape) {index : List Nat} (hlen : s.length = index.length) :
    position s index = innerPosition s.reverse index.reverse := by
  have hzip : s.zip index = (s.reverse.zip index.reverse).reverse := by
    rw [List.zip_eq_zipWith, List.zip_eq_zipWith, List.reverse_zipWith (by simp [hlen]), List.reverse_reverse,
      List.reverse_reverse]
  have hfold : ∀ ds is : List Nat, (ds.zip is).foldr (fun (d, i) k => k * d + i) 0 = innerPosition ds is := by
    intro ds
    induction ds with
    | nil => exact fun is => rfl
    | cons d ds ih =>
      intro is
      cases is with
      | nil => rfl
      | cons i is => exact congrArg (· * d + i) (ih is)
  rw [position, hzip, List.foldl_reverse]
  exact hfold _ _

private theorem innerPosition_lt (h : List.Forall₂ (· < ·) is ds) : innerPosition ds is < size ds := by
  induction h with
  | nil => exact Nat.one_pos
  | @cons i d is ds hi _ ih =>
    rw [size_cons]
    calc innerPosition ds is * d + i
      _ < innerPosition ds is * d + d := Nat.add_lt_add_left hi _
      _ = (innerPosition ds is + 1) * d := (Nat.succ_mul _ _).symm
      _ ≤ size ds * d := Nat.mul_le_mul_right d ih
      _ = d * size ds := Nat.mul_comm _ _

private theorem exists_innerPosition_eq {k : Nat} (h : k < size ds) :
    ∃ is, List.Forall₂ (· < ·) is ds ∧ innerPosition ds is = k := by
  induction ds generalizing k with
  | nil => exact ⟨[], .nil, (Nat.lt_one_iff.mp h).symm⟩
  | cons d ds ih =>
    rw [size_cons] at h
    obtain ⟨is, his, hposition⟩ := ih (Nat.div_lt_of_lt_mul h)
    have hd : 0 < d := Nat.pos_of_mul_pos_right (Nat.lt_of_le_of_lt (Nat.zero_le k) h)
    refine ⟨k % d :: is, .cons (Nat.mod_lt k hd) his, ?_⟩
    rw [innerPosition, hposition, Nat.mul_comm, Nat.div_add_mod]

private theorem forall₂_innerAligned (h : Stretches es ds) (his : List.Forall₂ (· < ·) is ds) :
    List.Forall₂ (· < ·) (innerAligned es is) es := by
  induction h generalizing is with
  | nil => exact .nil
  | @cons d e ds es he _ ih =>
    obtain _ | ⟨hi, his⟩ := his
    refine .cons ?_ (ih his)
    dsimp only
    split
    next hone => exact hone ▸ Nat.one_pos
    next hne => exact (he.resolve_right hne) ▸ hi

private theorem innerAligned_self (his : List.Forall₂ (· < ·) is ds) : innerAligned ds is = is := by
  induction his with
  | nil => rfl
  | @cons i d is ds hi _ ih =>
    have hentry : (if d = 1 then 0 else i) = i := by
      split <;> omega
    exact congrArg₂ List.cons hentry ih

private theorem innerAligned_innerAligned {fs : List Nat} (h : Stretches es ds) (h' : Stretches ds fs)
    (his : List.Forall₂ (· < ·) is fs) : innerAligned es (innerAligned ds is) = innerAligned es is := by
  induction h generalizing fs is with
  | nil => rfl
  | @cons d e ds es he _ ih =>
    obtain _ | ⟨_, h'⟩ := h'
    obtain _ | @⟨i, _, is, _, _, his⟩ := his
    have hentry : (if e = 1 then 0 else if d = 1 then 0 else i) = if e = 1 then 0 else i := by
      split
      next => rfl
      next hne => exact if_neg (by omega)
    exact congrArg₂ List.cons hentry (ih h' his)

private theorem projectReversed_innerPosition (h : Stretches es ds) (his : List.Forall₂ (· < ·) is ds) :
    projectReversed ds es (innerPosition ds is) = innerPosition es (innerAligned es is) := by
  induction h generalizing is with
  | nil => rw [projectReversed, innerPosition] <;> simp
  | @cons d e ds es he _ ih =>
    obtain _ | @⟨i, _, is, _, hi, his⟩ := his
    have hmod : (innerPosition ds is * d + i) % d = i := by
      rw [Nat.mul_add_mod_self_right, Nat.mod_eq_of_lt hi]
    have hdiv : (innerPosition ds is * d + i) / d = innerPosition ds is := by
      rw [Nat.add_comm, Nat.add_mul_div_right _ _ (Nat.zero_lt_of_lt hi), Nat.div_eq_of_lt hi, Nat.zero_add]
    calc projectReversed (d :: ds) (e :: es) (innerPosition ds is * d + i)
      _ = (if e = 1 then 0 else i) + e * innerPosition es (innerAligned es is) := by
        rw [projectReversed, hmod, hdiv, ih his]
      _ = innerPosition es (innerAligned es is) * e + (if e = 1 then 0 else i) := by
        rw [Nat.add_comm, Nat.mul_comm]

end Reversed

section Broadcast

theorem joinDim_comm (a b : Nat) : joinDim a b = joinDim b a := by
  unfold joinDim
  split <;> split <;> grind

private theorem stretches_of_joinDim {a b d : Nat} (h : joinDim a b = some d) : (a = d ∨ a = 1) ∧ (b = d ∨ b = 1) := by
  unfold joinDim at h
  split at h <;> grind

private theorem joinReversed_comm (as bs : List Nat) : joinReversed as bs = joinReversed bs as := by
  induction as generalizing bs with
  | nil => cases bs <;> rfl
  | cons a as ih =>
    cases bs with
    | nil => rfl
    | cons b bs => rw [joinReversed, joinReversed, joinDim_comm, ih]

private theorem stretches_of_joinReversed {as bs ds : List Nat} (h : joinReversed as bs = some ds) :
    Stretches as ds ∧ Stretches bs ds := by
  induction as generalizing bs ds with
  | nil =>
    obtain rfl : bs = ds := by simpa [joinReversed] using h
    exact ⟨.nil, .refl bs⟩
  | cons a as ih =>
    cases bs with
    | nil =>
      obtain rfl : a :: as = ds := by simpa [joinReversed] using h
      exact ⟨.refl _, .nil⟩
    | cons b bs =>
      obtain ⟨d, hd, h⟩ := Option.bind_eq_some_iff.mp h
      obtain ⟨ds', hds, h⟩ := Option.bind_eq_some_iff.mp h
      obtain rfl : d :: ds' = ds := Option.some.inj h
      obtain ⟨ha, hb⟩ := stretches_of_joinDim hd
      exact ⟨.cons ha (ih hds).1, .cons hb (ih hds).2⟩

theorem broadcast_comm (a b : Shape) : broadcast a b = broadcast b a := by
  rw [broadcast, broadcast, joinReversed_comm]

/-- Whether an operand of shape `a` can be read at every index of the shape `s`. -/
def StretchesTo (a s : Shape) : Prop := Stretches a.reverse s.reverse

/-- Both operands stretch to the shape that they broadcast to. -/
theorem stretchesTo_of_broadcast {a b s : Shape} (h : broadcast a b = some s) : a.StretchesTo s ∧ b.StretchesTo s := by
  obtain ⟨ds, hds, rfl⟩ := Option.map_eq_some_iff.mp h
  unfold StretchesTo
  rw [List.reverse_reverse]
  exact stretches_of_joinReversed hds

end Broadcast

section Index
variable {s a : Shape} {index : List Nat}

theorem Indexes.length_eq (h : s.Indexes index) : index.length = s.length := List.Forall₂.length_eq h

theorem size_reverse (s : Shape) : size s.reverse = size s := List.prod_reverse s

theorem position_lt (h : s.Indexes index) : s.position index < s.size := by
  rw [position_eq_inner s h.length_eq.symm, ← size_reverse]
  exact innerPosition_lt (List.forall₂_reverse_iff.mpr h)

/-- Every position is the one of an index. -/
theorem exists_position_eq {k : Nat} (h : k < s.size) : ∃ index, s.Indexes index ∧ s.position index = k := by
  rw [← size_reverse] at h
  obtain ⟨is, his, hposition⟩ := exists_innerPosition_eq h
  have hindexes : s.Indexes is.reverse := by
    rw [Indexes, ← List.forall₂_reverse_iff, List.reverse_reverse]
    exact his
  refine ⟨is.reverse, hindexes, ?_⟩
  rw [position_eq_inner s hindexes.length_eq.symm, List.reverse_reverse]
  exact hposition

private theorem reverse_aligned (hlen : a.length ≤ index.length) :
    (a.aligned index).reverse = innerAligned a.reverse index.reverse := by
  have hdrop : a.length = (index.drop (index.length - a.length)).length := by
    rw [List.length_drop, Nat.sub_sub_self hlen]
  have htake : innerAligned a.reverse index.reverse = innerAligned a.reverse (index.reverse.take a.length) := by
    rw [innerAligned, List.zipWith_eq_zipWith_take_min]
    simp [hlen, List.take_of_length_le]
  rw [htake, aligned, List.reverse_zipWith hdrop, List.reverse_drop, Nat.sub_sub_self hlen, innerAligned]

theorem StretchesTo.length_le (ha : a.StretchesTo s) (h : s.Indexes index) : a.length ≤ index.length := by
  have hle := Stretches.length_le ha
  rwa [List.length_reverse, List.length_reverse, ← h.length_eq] at hle

theorem StretchesTo.indexes_aligned (ha : a.StretchesTo s) (h : s.Indexes index) : a.Indexes (a.aligned index) := by
  have hlen := ha.length_le h
  rw [Indexes, ← List.forall₂_reverse_iff, reverse_aligned hlen]
  exact forall₂_innerAligned ha (List.forall₂_reverse_iff.mpr h)

theorem StretchesTo.refl (s : Shape) : s.StretchesTo s := Stretches.refl s.reverse

theorem aligned_self (h : s.Indexes index) : s.aligned index = index := by
  rw [← List.reverse_inj, reverse_aligned ((StretchesTo.refl s).length_le h)]
  exact innerAligned_self (List.forall₂_reverse_iff.mpr h)

/-- An index that is aligned to a shape and then to a narrower one is aligned to that one. -/
theorem StretchesTo.aligned_aligned {t : Shape} (ha : a.StretchesTo s) (hs : s.StretchesTo t) (h : t.Indexes index) :
    a.aligned (s.aligned index) = a.aligned index := by
  have hlen := hs.length_le h
  have haligned := hs.indexes_aligned h
  have hlen' := ha.length_le haligned
  have hlen'' : a.length ≤ index.length := Nat.le_trans hlen' (haligned.length_eq ▸ hlen)
  rw [← List.reverse_inj, reverse_aligned hlen', reverse_aligned hlen, reverse_aligned hlen'']
  exact innerAligned_innerAligned ha hs (List.forall₂_reverse_iff.mpr h)

/-- An operand is read at the aligned index. -/
theorem StretchesTo.project_position (ha : a.StretchesTo s) (h : s.Indexes index) :
    project s a (s.position index) = a.position (a.aligned index) := by
  have hlen := ha.length_le h
  have haligned := ha.indexes_aligned h
  rw [project, position_eq_inner s h.length_eq.symm, position_eq_inner a haligned.length_eq.symm, reverse_aligned hlen]
  exact projectReversed_innerPosition ha (List.forall₂_reverse_iff.mpr h)

end Index

end Shape

namespace Tensor

def elementAt? (x : Tensor) (index : List Nat) : Option (Σ type, Element type) :=
  if x.shape.Indexes index then x.elements[x.shape.position index]?.map (Sigma.mk x.type) else none

theorem elementAt?_eq {x : Tensor} {index : List Nat} (h : x.shape.Indexes index) {v : Element x.type}
    (hv : x.elements[x.shape.position index]? = some v) : x.elementAt? index = some ⟨x.type, v⟩ := by
  rw [elementAt?, if_pos h, hv]
  rfl

/-- Tensors of one type and shape have the same bits if their elements have. -/
theorem sameBits_mk_iff {type : ElementType} {shape : Shape} {elements elements' : List (Element type)}
    (hl : elements.length = shape.size) (hl' : elements'.length = shape.size) :
    sameBits ⟨type, shape, elements, hl⟩ ⟨type, shape, elements', hl'⟩ = true ↔
      List.Forall₂ (fun v w => type.carrier.sameBits v w = true) elements elements' := by
  rw [List.forall₂_iff_zip]
  simp only [sameBits, decide_true, Bool.true_and, List.all_eq_true, Prod.forall]
  exact ⟨fun h => ⟨hl.trans hl'.symm, fun hvw => h _ _ hvw⟩, fun h v w hvw => h.2 hvw⟩

/-- Tensors without NaN elements have the same bits only if they are the same. -/
theorem sameBits_mk_iff_eq {type : ElementType} {shape : Shape} {elements elements' : List (Element type)}
    (hl : elements.length = shape.size) (hl' : elements'.length = shape.size)
    (hnan : ∀ v ∈ elements', type.carrier.isNaN v = false) :
    sameBits ⟨type, shape, elements, hl⟩ ⟨type, shape, elements', hl'⟩ = true ↔ elements = elements' := by
  rw [sameBits_mk_iff hl hl', ← List.forall₂_eq_eq_eq, List.forall₂_iff_zip, List.forall₂_iff_zip]
  refine and_congr_right fun _ => forall₂_congr fun v w => imp_congr_right fun hvw => ?_
  exact ⟨fun h => Carrier.eq_of_sameBits h (hnan w (List.of_mem_zip hvw).2), fun h => h ▸ Carrier.sameBits_refl _ v⟩

theorem sameBits_refl (x : Tensor) : x.sameBits x = true :=
  (sameBits_mk_iff x.length_elements x.length_elements).mpr (List.forall₂_same.mpr fun _ _ => Carrier.sameBits_refl _ _)

end Tensor

end TensorEval
