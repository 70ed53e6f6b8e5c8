import TensorEval.Proofs.Attribute.Nesting
import TensorEval.Proofs.Outcome

/-! Splitting at the commas outside of brackets and strings: the pieces of a text, and which lists of texts come back
when they are joined and split again. -/
namespace TensorEval.Attribute

open Nesting

def joined : List (List Char) → List Char
  | [] => []
  | p :: ps => p ++ ps.flatMap fun q => ',' :: q

/-- Whether a scan that starts from `n` finds these texts between the separating commas: none of them has such a
comma, and all but the last end outside of everything. -/
def Separable (n : Nesting) : List (List Char) → Prop
  | [] => True
  | [p] => n.Keeps p
  | p :: ps => n.Keeps p ∧ n.run p = top ∧ Separable top ps

variable {n : Nesting} {p : List Char} {ps qs ts : List (List Char)}

theorem Separable.cons (hkeeps : n.Keeps p) (hrun : n.run p = top) (h : Separable top ps) : Separable n (p :: ps) := by
  cases ps with
  | nil => exact hkeeps
  | cons q ps => exact ⟨hkeeps, hrun, h⟩

theorem Separable.tail (h : Separable n (p :: ps)) : Separable top ps := by
  cases ps with
  | nil => trivial
  | cons q ps => exact h.2.2

theorem Separable.filter (h : Separable top ps) (f : List Char → Bool) : Separable top (ps.filter f) := by
  induction ps with
  | nil => trivial
  | cons p ps ih =>
    have hrest := ih h.tail
    rw [List.filter_cons]
    split
    · cases ps with
      | nil => exact h
      | cons q ps => exact Separable.cons h.1 h.2.1 hrest
    · exact hrest

theorem splitFrom_ne_nil (n : Nesting) (cs : List Char) : splitFrom n cs ≠ [] := by
  cases cs with
  | nil => exact List.cons_ne_nil _ _
  | cons c cs =>
    unfold splitFrom
    split
    · exact List.cons_ne_nil _ _
    · split <;> exact List.cons_ne_nil _ _

private theorem splitFrom_cons_of_not {c : Char} {cs : List Char} (hsep : n.separates c = false)
    (h : splitFrom (n.step c) cs = p :: ps) : splitFrom n (c :: cs) = (c :: p) :: ps := by
  rw [splitFrom, if_neg (by simp [hsep]), h]

private theorem splitFrom_cons {c : Char} {cs : List Char} (hsep : n.separates c = true) :
    splitFrom n (c :: cs) = [] :: splitFrom n cs := by rw [splitFrom, if_pos hsep]

theorem separable_splitFrom (n : Nesting) (cs : List Char) : Separable n (splitFrom n cs) := by
  induction cs generalizing n with
  | nil => trivial
  | cons c cs ih =>
    cases hsep : n.separates c with
    | true =>
      rw [splitFrom_cons hsep]
      have hn : n = top := by
        simp only [separates, Bool.and_eq_true, decide_eq_true_eq] at hsep
        exact hsep.1
      subst hn
      exact Separable.cons trivial rfl (ih top)
    | false =>
      cases hsplit : splitFrom (n.step c) cs with
      | nil => exact absurd hsplit (splitFrom_ne_nil _ _)
      | cons p ps =>
        have hrest := ih (n.step c)
        rw [hsplit] at hrest
        rw [splitFrom_cons_of_not hsep hsplit]
        cases ps with
        | nil => exact ⟨hsep, hrest⟩
        | cons q ps => exact ⟨⟨hsep, hrest.1⟩, hrest.2⟩

theorem joined_splitFrom (n : Nesting) (cs : List Char) : joined (splitFrom n cs) = cs := by
  induction cs generalizing n with
  | nil => rfl
  | cons c cs ih =>
    cases hsep : n.separates c with
    | true =>
      have hc : c = ',' := by
        simp only [separates, Bool.and_eq_true, decide_eq_true_eq] at hsep
        exact hsep.2
      rw [splitFrom_cons hsep, hc]
      have hrest := ih n
      cases hsplit : splitFrom n cs with
      | nil => exact absurd hsplit (splitFrom_ne_nil _ _)
      | cons p ps =>
        rw [hsplit] at hrest
        rw [← hrest]
        rfl
    | false =>
      have hrest := ih (n.step c)
      cases hsplit : splitFrom (n.step c) cs with
      | nil => exact absurd hsplit (splitFrom_ne_nil _ _)
      | cons p ps =>
        rw [hsplit] at hrest
        rw [splitFrom_cons_of_not hsep hsplit, ← hrest]
        rfl

private theorem splitFrom_append {cs : List Char} (hkeeps : n.Keeps p) (hrun : n.run p = top) :
    splitFrom n (p ++ ',' :: cs) = p :: splitFrom top cs := by
  induction p generalizing n with
  | nil =>
    obtain rfl : n = top := hrun
    exact splitFrom_cons rfl
  | cons c p ih => exact splitFrom_cons_of_not hkeeps.1 (ih hkeeps.2 hrun)

private theorem splitFrom_of_keeps (hkeeps : n.Keeps p) : splitFrom n p = [p] := by
  induction p generalizing n with
  | nil => rfl
  | cons c p ih => exact splitFrom_cons_of_not hkeeps.1 (ih hkeeps.2)

/-- Separable texts come back when they are joined and split. -/
theorem splitFrom_joined (h : Separable n (p :: ps)) : splitFrom n (joined (p :: ps)) = p :: ps := by
  induction ps generalizing n p with
  | nil =>
    rw [joined, List.flatMap_nil, List.append_nil]
    exact splitFrom_of_keeps h
  | cons q ps ih =>
    have hjoined : joined (p :: q :: ps) = p ++ ',' :: joined (q :: ps) := rfl
    rw [hjoined, splitFrom_append h.1 h.2.1, ih h.2.2]

private theorem joined_cons_cons (p q : List Char) (ps : List (List Char)) :
    joined (p :: q :: ps) = p ++ ',' :: joined (q :: ps) := rfl

private theorem joined_singleton (p : List Char) : joined [p] = p := by
  rw [joined, List.flatMap_nil, List.append_nil]

private theorem keeps_joined (h : Separable top ps) (d : Nat) :
    (level (d + 1 : Nat)).Keeps (joined ps) ↔ ∀ p ∈ ps, (level (d + 1 : Nat)).Keeps p := by
  induction ps with
  | nil => simp [joined, Keeps]
  | cons p ps ih =>
    cases ps with
    | nil => simp [joined_singleton]
    | cons q ps =>
      have hrun := run_level_of_run_top h.2.1 (d + 1 : Nat)
      have hsep : (level (d + 1 : Nat)).separates ',' = false := separates_level (by omega) ','
      rw [joined_cons_cons, keeps_append, hrun, Keeps, step_level_comma, ih h.2.2, List.forall_mem_cons (a := p)]
      simp only [hsep, true_and]

private theorem run_joined (h : Separable top ps) : top.run (joined ps) = top ↔ ∀ p ∈ ps, top.run p = top := by
  induction ps with
  | nil => simp [joined, run_nil]
  | cons p ps ih =>
    cases ps with
    | nil => simp [joined_singleton]
    | cons q ps =>
      have hcomma : top.step ',' = top := step_level_comma 0
      rw [joined_cons_cons, run_append, h.2.1, run_cons, hcomma, ih h.2.2, List.forall_mem_cons (a := p)]
      simp only [h.2.1, true_and]

/-- Whether a text can take the place of another one in an array: it has no separating comma where the other has none,
and it ends outside of everything where the other does. -/
structure Replaces (t cs : List Char) : Prop where
  keeps : ∀ d : Nat, (level d).Keeps cs → (level d).Keeps t
  run : top.run cs = top → top.run t = top

theorem Replaces.trans {t u cs : List Char} (h : Replaces t u) (h' : Replaces u cs) : Replaces t cs :=
  ⟨fun d hd => h.keeps d (h'.keeps d hd), fun hrun => h.run (h'.run hrun)⟩

theorem replaces_of_level {t : List Char} (h : Level 0 t) (cs : List Char) : Replaces t cs :=
  ⟨fun d _ => (h d (Nat.zero_le d)).1, fun _ => (h 0 (Nat.le_refl 0)).2⟩

/-- Blanks at the ends do not matter. -/
theorem replaces_trim (cs : List Char) : Replaces (Text.trim cs) cs := by
  obtain ⟨l, r, hl, hr, hcs⟩ := Text.exists_trim cs
  have hstart (d : Int) : (level d).run l = level d := run_level_of_blanks hl d
  constructor
  · intro d hkeeps
    rw [hcs, List.append_assoc, keeps_append, hstart, keeps_append] at hkeeps
    exact hkeeps.2.1
  · intro hrun
    have htop : top.run l = top := hstart 0
    rw [hcs, run_append, run_append, htop] at hrun
    exact eq_top_of_run_blanks hr ((valid_level 0).run _) hrun

theorem separable_of_replaces (h : List.Forall₂ (fun q t => Replaces t q) qs ts) (hqs : Separable top qs) : Separable top ts := by
  induction h with
  | nil => trivial
  | cons hreplaces htail ih =>
    cases htail with
    | nil => exact hreplaces.keeps 0 hqs
    | cons _ _ => exact ⟨hreplaces.keeps 0 hqs.1, hreplaces.run hqs.2.1, ih hqs.2.2⟩

/-- The texts of a row as splitting finds them: all but the first start with a blank. -/
def spaced : List (List Char) → List (List Char)
  | [] => []
  | t :: ts => t :: ts.map (' ' :: ·)

theorem commaSeparated_eq_joined (ts : List (List Char)) : commaSeparated ts = joined (spaced ts) := by
  induction ts with
  | nil => rfl
  | cons t ts ih =>
    cases ts with
    | nil => simp [commaSeparated, spaced, joined]
    | cons u ts =>
      have hrest : commaSeparated (t :: u :: ts) = t ++ ',' :: ' ' :: commaSeparated (u :: ts) := rfl
      rw [hrest, ih]
      rfl

private theorem step_level_space (d : Int) : (level d).step ' ' = level d := step_level_of_not_isMark rfl d

private theorem keeps_space_cons {d : Int} {t : List Char} : (level d).Keeps (' ' :: t) ↔ (level d).Keeps t := by
  rw [Keeps, step_level_space]
  exact and_iff_right (separates_of_ne (by decide) _)

private theorem run_space_cons (t : List Char) : top.run (' ' :: t) = top.run t := by
  have hstep : top.step ' ' = top := step_level_space 0
  rw [run_cons, hstep]

private theorem separable_map_space (h : Separable top ts) : Separable top (ts.map (' ' :: ·)) := by
  induction ts with
  | nil => trivial
  | cons t ts ih =>
    cases ts with
    | nil => exact keeps_space_cons.mpr h
    | cons u ts => exact ⟨keeps_space_cons.mpr h.1, (run_space_cons t).trans h.2.1, ih h.2.2⟩

private theorem separable_spaced (h : Separable top ts) : Separable top (spaced ts) := by
  cases ts with
  | nil => trivial
  | cons t ts =>
    cases ts with
    | nil => exact h
    | cons u ts => exact ⟨h.1, h.2.1, separable_map_space h.2.2⟩

theorem mem_spaced {s : List Char} (h : s ∈ spaced ts) : s ∈ ts ∨ ∃ t ∈ ts, s = ' ' :: t := by
  cases ts with
  | nil => exact Or.inl h
  | cons t ts =>
    rcases List.mem_cons.mp h with rfl | h
    · exact Or.inl List.mem_cons_self
    · obtain ⟨u, hu, rfl⟩ := List.mem_map.mp h
      exact Or.inr ⟨u, List.mem_cons_of_mem t hu, rfl⟩

theorem splitItems_commaSeparated {t : List Char} (h : Separable top (t :: ts)) :
    splitItems (commaSeparated (t :: ts)) = spaced (t :: ts) := by
  rw [splitItems, commaSeparated_eq_joined]
  exact splitFrom_joined (separable_spaced h)

/-- Texts for the items of an array, written as an array, can take its place. -/
theorem replaces_array {inner : List Char} (f : List Char → Bool)
    (h : List.Forall₂ (fun q t => Replaces t q) ((splitItems inner).filter f) ts) :
    Replaces ('[' :: commaSeparated ts ++ [']']) ('[' :: inner ++ [']']) := by
  have hinner : joined (splitItems inner) = inner := joined_splitFrom top inner
  have hpieces : Separable top (splitItems inner) := separable_splitFrom top inner
  have hts : Separable top ts := separable_of_replaces h (hpieces.filter f)
  have hopen (d : Nat) : (level d).step '[' = level (d + 1 : Nat) := rfl
  constructor
  · intro d hkeeps
    rw [List.cons_append, Keeps, hopen, keeps_append] at hkeeps ⊢
    refine ⟨hkeeps.1, ?_, separates_of_ne (by decide) _, trivial⟩
    rw [← hinner, keeps_joined hpieces] at hkeeps
    rw [commaSeparated_eq_joined, keeps_joined (separable_spaced hts)]
    have hall : ∀ t ∈ ts, (level (d + 1 : Nat)).Keeps t := by
      intro t ht
      obtain ⟨q, hq, hreplaces⟩ := exists_of_mem_forall₂ h ht
      exact hreplaces.keeps _ (hkeeps.2.1 q (List.mem_of_mem_filter hq))
    intro s hs
    rcases mem_spaced hs with hs | ⟨t, ht, rfl⟩
    · exact hall s hs
    · exact keeps_space_cons.mpr (hall t ht)
  · intro hrun
    have hclose : (level 1).step ']' = top := rfl
    have htop : top.step '[' = level 1 := rfl
    rw [List.cons_append, run_cons, htop, run_append, run_cons, run_nil] at hrun ⊢
    have hone := eq_level_one_of_step ((valid_level 1).run inner) hrun
    have hback := run_top_of_run_level hone
    rw [← hinner, run_joined hpieces] at hback
    have hall : ∀ t ∈ ts, top.run t = top := by
      intro t ht
      obtain ⟨q, hq, hreplaces⟩ := exists_of_mem_forall₂ h ht
      exact hreplaces.run (hback q (List.mem_of_mem_filter hq))
    have hspaced : top.run (commaSeparated ts) = top := by
      rw [commaSeparated_eq_joined, run_joined (separable_spaced hts)]
      intro s hs
      rcases mem_spaced hs with hs | ⟨t, ht, rfl⟩
      · exact hall s hs
      · exact (run_space_cons t).trans (hall t ht)
    rw [run_level_of_run_top hspaced, hclose]

end TensorEval.Attribute
