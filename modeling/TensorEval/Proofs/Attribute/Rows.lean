import TensorEval.Proofs.Attribute.Scalar

/-! Nested lists of a dense literal: their tokens are their values, row by row, and the list written for a shape is such
lists of the texts it was written from. In an array it is passed as a whole. -/
namespace TensorEval

namespace Shape

private theorem foldlM_checkedMul_of_le {s : Shape} {a b n : Nat} (hab : b ≤ a)
    (h : s.foldlM checkedMul a = some n) : ∃ m, s.foldlM checkedMul b = some m := by
  induction s generalizing a b with
  | nil => exact ⟨b, rfl⟩
  | cons d ds ih =>
    rw [List.foldlM_cons, checkedMul] at h
    split at h
    next hlt =>
      have hle : b * d ≤ a * d := Nat.mul_le_mul_right d hab
      obtain ⟨m, hm⟩ := ih hle h
      refine ⟨m, ?_⟩
      rw [List.foldlM_cons, checkedMul, if_pos (Nat.lt_of_le_of_lt hle hlt)]
      exact hm
    next => exact absurd h (by simp)

/-- Behind a dimension that is not zero the other dimensions have a count of their own. -/
theorem elementCount_cons {d n : Nat} {rest : Shape} (hd : 0 < d) (h : elementCount (d :: rest) = some n) :
    ∃ k, elementCount rest = some k ∧ n = d * k := by
  have hn := elementCount_eq_some h
  rw [elementCount, List.foldlM_cons, checkedMul] at h
  split at h
  next =>
    have hle : 1 ≤ 1 * d := by omega
    obtain ⟨k, hk⟩ := foldlM_checkedMul_of_le hle h
    refine ⟨k, hk, ?_⟩
    rw [hn, elementCount_eq_some hk]
    rfl
  next => exact absurd h (by simp)

private theorem foldlM_checkedMul_lt {s : Shape} {a n : Nat} (ha : a < wordBound) (h : s.foldlM checkedMul a = some n) :
    n < wordBound := by
  induction s generalizing a with
  | nil => exact Option.some.inj h ▸ ha
  | cons d ds ih =>
    rw [List.foldlM_cons, checkedMul] at h
    split at h
    next hlt => exact ih hlt h
    next => exact absurd h (by simp)

theorem elementCount_lt {s : Shape} {n : Nat} (h : s.elementCount = some n) : n < wordBound :=
  foldlM_checkedMul_lt (by decide) h

/-- The first dimension fits a word, since nothing hides it. -/
theorem dim_lt_of_elementCount {d n : Nat} {rest : Shape} (h : elementCount (d :: rest) = some n) : d < wordBound := by
  rw [elementCount, List.foldlM_cons, checkedMul] at h
  split at h
  next hlt => rwa [Nat.one_mul] at hlt
  next => exact absurd h (by simp)

end Shape

namespace Attribute

section Tokens
variable {as bs : List Char} {c : Char}

private theorem splitWhere_ne_nil (p : Char → Bool) (cs : List Char) : splitWhere p cs ≠ [] := by
  cases cs with
  | nil => exact List.cons_ne_nil _ _
  | cons c cs =>
    unfold splitWhere
    split
    · exact List.cons_ne_nil _ _
    · split <;> exact List.cons_ne_nil _ _

private theorem splitWhere_cons_of_not {p : Char → Bool} {piece : List Char} {rest : List (List Char)}
    (hc : p c = false) (h : splitWhere p as = piece :: rest) : splitWhere p (c :: as) = (c :: piece) :: rest := by
  rw [splitWhere, if_neg (by simp [hc]), h]

private theorem splitWhere_append {p : Char → Bool} (hc : p c = true) :
    splitWhere p (as ++ c :: bs) = splitWhere p as ++ splitWhere p bs := by
  induction as with
  | nil =>
    change splitWhere p (c :: bs) = [] :: splitWhere p bs
    rw [splitWhere, if_pos hc]
  | cons a as ih =>
    cases ha : p a with
    | true => rw [List.cons_append, splitWhere, if_pos ha, splitWhere, if_pos ha, ih, List.cons_append]
    | false =>
      cases hsplit : splitWhere p as with
      | nil => exact absurd hsplit (splitWhere_ne_nil p as)
      | cons piece rest =>
        rw [hsplit] at ih
        rw [List.cons_append, splitWhere_cons_of_not ha ih, splitWhere_cons_of_not ha hsplit]
        rfl

private theorem splitWhere_of_forall {p : Char → Bool} (h : ∀ c ∈ as, p c = false) : splitWhere p as = [as] := by
  induction as with
  | nil => rfl
  | cons a as ih =>
    exact splitWhere_cons_of_not (h a List.mem_cons_self) (ih fun c hc => h c (List.mem_cons_of_mem a hc))

def isSeparator (c : Char) : Bool := c = '[' || c = ']' || c = ','

private theorem not_isSeparator_of_not_isMark (h : Nesting.isMark c = false) : isSeparator c = false := by
  have hne (d : Char) (hd : Nesting.isMark d = true) : c ≠ d := by
    rintro rfl
    exact Bool.false_ne_true (h.symm.trans hd)
  simp [isSeparator, hne '[' (by decide), hne ']' (by decide), hne ',' (by decide)]

private theorem countP_splitWhere_le (p : Char → Bool) (cs : List Char) :
    (splitWhere p cs).countP (· ≠ []) ≤ cs.length := by
  induction cs with
  | nil => exact Nat.le_refl 0
  | cons c cs ih =>
    cases hc : p c with
    | true =>
      rw [splitWhere, if_pos hc, List.countP_cons_of_neg (by simp)]
      exact Nat.le_succ_of_le ih
    | false =>
      cases hsplit : splitWhere p cs with
      | nil => exact absurd hsplit (splitWhere_ne_nil p cs)
      | cons piece rest =>
        rw [hsplit, List.countP_cons] at ih
        rw [splitWhere_cons_of_not hc hsplit, List.countP_cons_of_pos (by simp), List.length_cons]
        omega

/-- Each token has a character of its own. -/
theorem length_listTokens_le (cs : List Char) : (listTokens cs).length ≤ cs.length := by
  rw [listTokens, ← List.countP_eq_length_filter, List.countP_map]
  refine Nat.le_trans (List.countP_mono_left fun piece _ hpiece => ?_) (countP_splitWhere_le _ cs)
  have htrim : Text.trim piece ≠ [] := by simpa using hpiece
  refine decide_eq_true ?_
  rintro rfl
  exact htrim rfl

theorem listTokens_append (hc : isSeparator c = true) (as bs : List Char) :
    listTokens (as ++ c :: bs) = listTokens as ++ listTokens bs := by
  have hsplit : splitWhere isSeparator (as ++ c :: bs) = splitWhere isSeparator as ++ splitWhere isSeparator bs :=
    splitWhere_append hc
  change ((splitWhere isSeparator (as ++ c :: bs)).map Text.trim).filter (· ≠ []) = _
  rw [hsplit, List.map_append, List.filter_append]
  rfl

private theorem listTokens_of_not_isSeparator {cs : List Char} (h : ∀ c ∈ cs, isSeparator c = false) :
    listTokens cs = [Text.trim cs].filter (· ≠ []) := by
  have hsplit : splitWhere isSeparator cs = [cs] := splitWhere_of_forall h
  change ((splitWhere isSeparator cs).map Text.trim).filter (· ≠ []) = _
  rw [hsplit]
  rfl

private theorem listTokens_of_blanks {cs : List Char} (h : Text.Blanks cs) : listTokens cs = [] := by
  have htrim : Text.trim cs = [] := by
    have := Text.trim_of_parts h (Text.trimmed_of_forall fun c hc => absurd hc List.not_mem_nil) Text.blanks_nil
    rwa [List.append_nil, List.append_nil] at this
  rw [listTokens_of_not_isSeparator fun c hc =>
    not_isSeparator_of_not_isMark (Nesting.not_isMark_of_isBlank (h c hc)), htrim]
  rfl

private theorem listTokens_of_trim_eq {cs inner : List Char} (h : Text.trim cs = '[' :: inner ++ [']']) :
    listTokens cs = listTokens inner := by
  obtain ⟨l, r, hl, hr, hcs⟩ := Text.exists_trim cs
  have hparts : cs = l ++ '[' :: (inner ++ ']' :: r) := by
    rw [h] at hcs
    simpa using hcs
  rw [hparts, listTokens_append rfl, listTokens_append rfl, listTokens_of_blanks hl, listTokens_of_blanks hr,
    List.nil_append, List.append_nil]

theorem listTokens_joined (ps : List (List Char)) : listTokens (joined ps) = ps.flatMap listTokens := by
  induction ps with
  | nil => rfl
  | cons p ps ih =>
    cases ps with
    | nil => simp [joined]
    | cons q ps =>
      have hjoined : joined (p :: q :: ps) = p ++ ',' :: joined (q :: ps) := rfl
      rw [hjoined, listTokens_append rfl, ih]
      rfl

private theorem not_of_mem_splitWhere {p : Char → Bool} {piece : List Char} (h : piece ∈ splitWhere p as)
    (hc : c ∈ piece) : p c = false := by
  induction as generalizing piece with
  | nil =>
    obtain rfl := List.mem_singleton.mp h
    exact absurd hc List.not_mem_nil
  | cons a as ih =>
    cases ha : p a with
    | true =>
      rw [splitWhere, if_pos ha] at h
      rcases List.mem_cons.mp h with rfl | h
      · exact absurd hc List.not_mem_nil
      · exact ih h hc
    | false =>
      cases hsplit : splitWhere p as with
      | nil => exact absurd hsplit (splitWhere_ne_nil p as)
      | cons first rest =>
        rw [splitWhere_cons_of_not ha hsplit] at h
        rw [hsplit] at ih
        rcases List.mem_cons.mp h with rfl | h
        · rcases List.mem_cons.mp hc with rfl | hc
          · exact ha
          · exact ih List.mem_cons_self hc
        · exact ih (List.mem_cons_of_mem _ h) hc

end Tokens

/-- Nested lists for a shape, with their values row by row: a list has as many items as its dimension tells, and commas
between them. Behind a zero dimension nothing is written. Blanks can stand around items and brackets. -/
inductive Nests : Shape → List (List Char) → List Char → Prop where
  | value {cs : List Char} (hsep : ∀ c ∈ cs, isSeparator c = false) (hne : Text.trim cs ≠ []) :
      Nests [] [Text.trim cs] cs
  | empty {rest : Shape} {cs inner : List Char} (hcs : Text.trim cs = '[' :: inner ++ [']'])
      (hinner : Text.Blanks inner) : Nests (0 :: rest) [] cs
  | rows {rest : Shape} {cs : List Char} {rows : List (List (List Char) × List Char)} (hne : rows ≠ [])
      (hrows : ∀ row ∈ rows, Nests rest row.1 row.2)
      (hcs : Text.trim cs = '[' :: joined (rows.map Prod.snd) ++ [']']) :
      Nests (rows.length :: rest) (rows.flatMap Prod.fst) cs

namespace Nests
variable {shape rest : Shape} {values : List (List Char)} {cs : List Char}

/-- The tokens of nested lists are their values. -/
theorem listTokens_eq (h : Nests shape values cs) : listTokens cs = values := by
  induction h with
  | value hsep hne =>
    rw [listTokens_of_not_isSeparator hsep, List.filter_cons_of_pos (by simpa using hne)]
    rfl
  | empty hcs hinner => rw [listTokens_of_trim_eq hcs, listTokens_of_blanks hinner]
  | rows _ _ hcs ih =>
    rw [listTokens_of_trim_eq hcs, listTokens_joined, List.flatMap_map]
    exact List.flatMap_congr ih

theorem blank_cons (h : Nests shape values cs) : Nests shape values (' ' :: cs) := by
  have htrim : Text.trim (' ' :: cs) = Text.trim cs := Text.trim_blank_cons rfl cs
  cases h with
  | value hsep hne =>
    rw [← htrim]
    refine .value ?_ (htrim ▸ hne)
    intro c hc
    rcases List.mem_cons.mp hc with rfl | hc
    · rfl
    · exact hsep c hc
  | empty hcs hinner => exact .empty (htrim.trans hcs) hinner
  | rows hne hrows hcs => exact .rows hne hrows (htrim.trans hcs)

theorem of_token {t : List Char} (h : Token t) : Nests [] [t] t := by
  have htrim := Text.trim_eq_self h.trimmed
  have hvalue : Nests [] [Text.trim t] t :=
    .value (fun c hc => not_isSeparator_of_not_isMark (not_isMark_of_isToken (h.2 c hc))) (htrim.symm ▸ h.1)
  rwa [htrim] at hvalue

theorem of_mem_listTokens {t : List Char} (h : t ∈ listTokens cs) : Nests [] [t] t := by
  obtain ⟨hmem, hne⟩ := List.mem_filter.mp h
  obtain ⟨piece, hpiece, rfl⟩ := List.mem_map.mp hmem
  have hvalue : Nests [] [Text.trim (Text.trim piece)] (Text.trim piece) := by
    rw [← Text.trim_trim piece] at hne
    exact .value (fun c hc => not_of_mem_splitWhere hpiece (Text.mem_of_mem_trim hc)) (by simpa using hne)
  rwa [Text.trim_trim] at hvalue

private theorem of_rows {rows : List (List (List Char) × List Char)} (hne : rows ≠ [])
    (hrows : ∀ row ∈ rows, Nests rest row.1 row.2) : Nests (rows.length :: rest) (rows.flatMap Prod.fst)
      ('[' :: commaSeparated (rows.map Prod.snd) ++ [']']) := by
  have htrim := Text.trim_eq_self (Text.trimmed_between (o := '[') (c := ']') rfl rfl
    (commaSeparated (rows.map Prod.snd)))
  cases rows with
  | nil => exact absurd rfl hne
  | cons row rows =>
    -- All rows but the first start with the blank behind the comma.
    have hspaced : ∀ r ∈ row :: rows.map (fun r => (r.1, ' ' :: r.2)), Nests rest r.1 r.2 := by
      intro r hr
      rcases List.mem_cons.mp hr with rfl | hr
      · exact hrows _ List.mem_cons_self
      · obtain ⟨q, hq, rfl⟩ := List.mem_map.mp hr
        exact (hrows q (List.mem_cons_of_mem _ hq)).blank_cons
    have hlists := Nests.rows (List.cons_ne_nil _ _) hspaced (htrim.trans (by
      rw [commaSeparated_eq_joined]
      simp [spaced, Function.comp_def]))
    simpa [List.flatMap_map] using hlists

end Nests

/-- Nested lists written for a shape, with the texts in them row by row: a list has as many items as its dimension tells,
and each of them is written for the other dimensions. A text stands on its own where no dimension is left. -/
inductive RowMajor : Shape → List (List Char) → List Char → Prop where
  | value (t : List Char) : RowMajor [] [t] t
  | rows {rest : Shape} {rows : List (List (List Char) × List Char)} (hrows : ∀ row ∈ rows, RowMajor rest row.1 row.2) :
      RowMajor (rows.length :: rest) (rows.flatMap Prod.fst) ('[' :: commaSeparated (rows.map Prod.snd) ++ [']'])

private theorem RowMajor.of_range {rest : Shape} {n : Nat} {values : Nat → List (List Char)} {texts : Nat → List Char}
    (h : ∀ i < n, RowMajor rest (values i) (texts i)) : RowMajor (n :: rest) ((List.range n).flatMap values)
      ('[' :: commaSeparated ((List.range n).map texts) ++ [']']) := by
  have hrows : ∀ row ∈ (List.range n).map fun i => (values i, texts i), RowMajor rest row.1 row.2 := by
    intro row hrow
    obtain ⟨i, hi, rfl⟩ := List.mem_map.mp hrow
    exact h i (List.mem_range.mp hi)
  simpa [List.flatMap_map, Function.comp_def] using RowMajor.rows hrows

/-- Lists of texts that are values on their own are read as lists of these values. -/
theorem RowMajor.nests {shape : Shape} {texts : List (List Char)} {cs : List Char} (h : RowMajor shape texts cs)
    (htexts : ∀ t ∈ texts, Nests [] [t] t) : Nests shape texts cs := by
  induction h with
  | value t => exact htexts t List.mem_cons_self
  | @rows rest rows hrows ih =>
    cases rows with
    | nil => exact .empty (Text.trim_eq_self (Text.trimmed_between rfl rfl [])) Text.blanks_nil
    | cons row rows =>
      exact Nests.of_rows (List.cons_ne_nil _ _) fun r hr =>
        ih r hr fun t ht => htexts t (List.mem_flatMap_of_mem hr ht)

section Slices
variable {α : Type} {xs : List α} {stride d i : Nat}

/-- The rows of a list that they fill are parts of it, each as long as the others. -/
theorem slice_row (hlen : xs.length = d * stride) (hi : i < d) :
    (i + 1) * stride ≤ xs.length ∧ ((xs.drop (i * stride)).take stride).length = stride := by
  have hle : (i + 1) * stride ≤ xs.length := hlen ▸ Nat.mul_le_mul_right stride hi
  have hstop : (i + 1) * stride = i * stride + stride := Nat.succ_mul i stride
  rw [List.length_take, List.length_drop]
  exact ⟨hle, by omega⟩

private theorem flatMap_rows (xs : List α) (stride d : Nat) :
    (List.range d).flatMap (fun i => (xs.drop (i * stride)).take stride) = xs.take (d * stride) := by
  induction d with
  | zero => rw [Nat.zero_mul, List.take_zero, List.range_zero, List.flatMap_nil]
  | succ d ih => rw [List.range_succ, List.flatMap_append, ih, Nat.succ_mul, List.take_add, List.flatMap_singleton]

end Slices

/-- The text of a list whose rows have `stride` elements and are filled. -/
theorem nested_cons {rest : Shape} {texts : List (List Char)} {stride d : Nat} (hstride : rest.elementCount = some stride)
    (hlen : texts.length = d * stride) : nested (d :: rest) texts =
      '[' :: commaSeparated ((List.range d).map fun i => nested rest ((texts.drop (i * stride)).take stride)) ++ [']'] := by
  have hrows : ∀ i ∈ List.range d, nested rest
      (if (i + 1) * stride ≤ texts.length then (texts.drop (i * stride)).take stride else []) =
        nested rest ((texts.drop (i * stride)).take stride) := by
    intro i hi
    rw [if_pos (slice_row hlen (List.mem_range.mp hi)).1]
  rw [nested, hstride, Option.getD_some]
  dsimp only
  rw [List.map_congr_left hrows]
  rfl

/-- The list for a shape has the texts it was written from row by row. -/
theorem rowMajor_nested {shape : Shape} {texts : List (List Char)} (hcount : shape.elementCount = some texts.length) :
    RowMajor shape texts (nested shape texts) := by
  induction shape generalizing texts with
  | nil =>
    have hone : texts.length = 1 := (Option.some.inj hcount).symm
    obtain ⟨t, rfl⟩ := List.length_eq_one_iff.mp hone
    exact .value t
  | cons d rest ih =>
    rcases Nat.eq_zero_or_pos d with rfl | hd
    · have hzero : texts.length = 0 := by
        rw [Shape.elementCount_eq_some hcount, Shape.size, List.foldr_cons, Nat.zero_mul]
      rw [List.length_eq_zero_iff.mp hzero]
      exact @RowMajor.rows rest [] fun row hrow => absurd hrow List.not_mem_nil
    · obtain ⟨stride, hstride, hlen⟩ := Shape.elementCount_cons hd hcount
      have hrows : RowMajor (d :: rest) ((List.range d).flatMap fun i => (texts.drop (i * stride)).take stride)
          (nested (d :: rest) texts) := by
        rw [nested_cons hstride hlen]
        refine .of_range fun i hi => ih ?_
        rw [hstride, (slice_row hlen hi).2]
      rwa [flatMap_rows, ← hlen, List.take_length] at hrows

/-- The list for a shape has the texts it was written from as its values, row by row. -/
theorem nests_nested {shape : Shape} {texts : List (List Char)} (hcount : shape.elementCount = some texts.length)
    (htexts : ∀ t ∈ texts, Nests [] [t] t) : Nests shape texts (nested shape texts) :=
  (rowMajor_nested hcount).nests htexts

theorem level_commaSeparated {k : Nat} {items : List (List Char)} (h : ∀ t ∈ items, Nesting.Level (k + 1) t) :
    Nesting.Level (k + 1) (commaSeparated items) := by
  induction items with
  | nil => exact Nesting.level_nil _
  | cons t ts ih =>
    have ht := h t List.mem_cons_self
    have hts := ih fun u hu => h u (List.mem_cons_of_mem t hu)
    cases ts with
    | nil =>
      have hone : commaSeparated [t] = t := by simp [commaSeparated]
      rwa [hone]
    | cons u ts => exact ht.append (Nesting.Level.comma_cons (Nesting.Level.cons rfl hts))

theorem level_nested (shape : Shape) {texts : List (List Char)} (htexts : ∀ t ∈ texts, Token t) :
    Nesting.Level 0 (nested shape texts) := by
  induction shape generalizing texts with
  | nil =>
    cases texts with
    | nil => exact Nesting.level_nil 0
    | cons t ts => exact (htexts t List.mem_cons_self).level
  | cons d rest ih =>
    rw [nested]
    apply Nesting.Level.brackets (o := '[') (c := ']') rfl rfl
    apply level_commaSeparated
    intro row hrow
    obtain ⟨i, -, rfl⟩ := List.mem_map.mp hrow
    refine (ih ?_).mono (Nat.zero_le 1)
    intro t ht
    dsimp only at ht
    split at ht
    · exact htexts t (List.mem_of_mem_drop (List.mem_of_mem_take ht))
    · exact absurd ht List.not_mem_nil

end Attribute

end TensorEval
