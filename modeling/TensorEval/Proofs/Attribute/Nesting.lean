import Mathlib.Tactic.Tauto
import TensorEval.Attribute.Parser
import TensorEval.Attribute.Printer
import TensorEval.Proofs.Text.Blank

/-! Scanning a text for brackets and strings: what a scan does to the place it starts from, and the texts that every
scan passes without a separating comma and leaves as deep as it came. -/
namespace TensorEval.Attribute

namespace Nesting

def level (d : Int) : Nesting := ⟨d, false, false⟩

def run (n : Nesting) (cs : List Char) : Nesting := cs.foldl step n

/-- Whether no comma of a text separates items, for a scan from here. -/
def Keeps (n : Nesting) : List Char → Prop
  | [] => True
  | c :: cs => n.separates c = false ∧ (n.step c).Keeps cs

def shift (k : Int) (n : Nesting) : Nesting := { n with depth := n.depth + k }

theorem run_nil (n : Nesting) : n.run [] = n := rfl

theorem run_cons (n : Nesting) (c : Char) (cs : List Char) : n.run (c :: cs) = (n.step c).run cs := rfl

theorem run_append (n : Nesting) (as bs : List Char) : n.run (as ++ bs) = (n.run as).run bs := List.foldl_append

theorem keeps_append {n : Nesting} {as bs : List Char} : n.Keeps (as ++ bs) ↔ n.Keeps as ∧ (n.run as).Keeps bs := by
  induction as generalizing n with
  | nil => simp [Keeps, run_nil]
  | cons c as ih => simp only [List.cons_append, Keeps, run_cons, ih, and_assoc]

/-- How much deeper a character leads outside of strings. -/
def turn (c : Char) : Int :=
  if c = '[' ∨ c = '<' ∨ c = '(' ∨ c = '\x7b' then 1
  else if c = ']' ∨ c = '>' ∨ c = ')' ∨ c = '\x7d' then -1
  else 0

private theorem step_quoted (d : Int) (c : Char) :
    step ⟨d, true, false⟩ c =
      if c = '\\' then ⟨d, true, true⟩ else if c = '"' then ⟨d, false, false⟩ else ⟨d, true, false⟩ := rfl

theorem step_level (d : Int) (c : Char) :
    (level d).step c = if c = '"' then ⟨d, true, false⟩ else level (d + turn c) := by
  simp only [step, level, turn, Bool.false_eq_true, if_false]
  split
  · rfl
  · split
    · rfl
    · split
      · rfl
      · rw [Int.add_zero]

private theorem step_shift (k : Int) (n : Nesting) (c : Char) : (n.shift k).step c = (n.step c).shift k := by
  obtain ⟨depth, quoted, escaped⟩ := n
  cases escaped with
  | true => rfl
  | false =>
    cases quoted with
    | true =>
      simp only [shift, step_quoted]
      split
      · rfl
      · split <;> rfl
    | false =>
      change (level (depth + k)).step c = ((level depth).step c).shift k
      rw [step_level, step_level]
      split
      · rfl
      · simp only [level, shift]
        rw [Int.add_right_comm]

theorem run_shift (k : Int) (n : Nesting) (cs : List Char) : (n.shift k).run cs = (n.run cs).shift k := by
  induction cs generalizing n with
  | nil => rfl
  | cons c cs ih => rw [run_cons, run_cons, step_shift, ih]

private theorem shift_injective {k : Int} {n m : Nesting} (h : n.shift k = m.shift k) : n = m := by
  obtain ⟨a, _, _⟩ := n
  obtain ⟨b, _, _⟩ := m
  simp only [shift, Nesting.mk.injEq] at h ⊢
  exact ⟨by omega, h.2⟩

/-- A text that ends where it starts does so at every depth. -/
theorem run_level_of_run_top {cs : List Char} (h : top.run cs = top) (d : Int) : (level d).run cs = level d := by
  have hshift : level d = top.shift d := by simp [level, top, shift]
  rw [hshift, run_shift, h]

theorem run_top_of_run_level {cs : List Char} {d : Int} (h : (level d).run cs = level d) : top.run cs = top := by
  have hshift : level d = top.shift d := by simp [level, top, shift]
  rw [hshift, run_shift] at h
  exact shift_injective h

/-- A backslash counts in strings only. -/
def Valid (n : Nesting) : Prop := n.escaped = true → n.quoted = true

theorem valid_level (d : Int) : (level d).Valid := fun h => nomatch h

theorem Valid.step {n : Nesting} (h : n.Valid) (c : Char) : (n.step c).Valid := by
  obtain ⟨depth, quoted, escaped⟩ := n
  cases escaped with
  | true => exact fun h => nomatch h
  | false =>
    cases quoted with
    | true =>
      rw [step_quoted]
      split
      · exact fun _ => rfl
      · split <;> exact fun h => nomatch h
    | false =>
      change ((level depth).step c).Valid
      rw [step_level]
      split <;> exact fun h => nomatch h

theorem Valid.run {n : Nesting} (h : n.Valid) (cs : List Char) : (n.run cs).Valid := by
  induction cs generalizing n with
  | nil => exact h
  | cons c cs ih => exact ih (h.step c)

/-- The brackets, the quote and the comma: all other characters leave the scan outside of strings where it is. -/
def isMark (c : Char) : Bool := c = '"' || c = ',' || turn c ≠ 0

theorem step_level_of_not_isMark {c : Char} (h : isMark c = false) (d : Int) : (level d).step c = level d := by
  simp only [isMark, Bool.or_eq_false_iff, decide_eq_false_iff_not, ne_eq, Decidable.not_not] at h
  rw [step_level, if_neg h.1.1, h.2, Int.add_zero]

theorem step_level_comma (d : Int) : (level d).step ',' = level d := by
  have hturn : turn ',' = 0 := by decide
  rw [step_level, if_neg (by decide), hturn, Int.add_zero]

theorem separates_of_ne {c : Char} (h : c ≠ ',') (n : Nesting) : n.separates c = false := by simp [separates, h]

theorem separates_level {d : Int} (h : d ≠ 0) (c : Char) : (level d).separates c = false := by
  simp [separates, level, top, h]

def marks : List Char := ['"', ',', '[', '<', '(', '\x7b', ']', '>', ')', '\x7d']

private theorem mem_marks_of_isMark {c : Char} (h : isMark c = true) : c ∈ marks := by
  simp only [marks, List.mem_cons, List.not_mem_nil, or_false]
  by_cases hopen : c = '[' ∨ c = '<' ∨ c = '(' ∨ c = '\x7b'
  · tauto
  · by_cases hclose : c = ']' ∨ c = '>' ∨ c = ')' ∨ c = '\x7d'
    · tauto
    · simp only [isMark, turn, if_neg hopen, if_neg hclose, Bool.or_eq_true, decide_eq_true_eq, ne_eq,
        not_true_eq_false, or_false] at h
      tauto

/-- A class of characters without the marks. -/
theorem not_isMark_of {p : Char → Bool} (hp : marks.any p = false) {c : Char} (h : p c = true) : isMark c = false := by
  cases hmark : isMark c with
  | false => rfl
  | true => exact absurd h (List.any_eq_false.mp hp c (mem_marks_of_isMark hmark))

theorem not_isMark_of_isBlank {c : Char} (h : Text.isBlank c = true) : isMark c = false := not_isMark_of (by decide) h

theorem run_level_of_blanks {cs : List Char} (h : Text.Blanks cs) (d : Int) : (level d).run cs = level d := by
  induction cs with
  | nil => rfl
  | cons c cs ih =>
    rw [run_cons, step_level_of_not_isMark (not_isMark_of_isBlank (h c List.mem_cons_self))]
    exact ih fun x hx => h x (List.mem_cons_of_mem c hx)

private theorem quoted_run_of_blanks {cs : List Char} (h : Text.Blanks cs) {n : Nesting} (hn : n.quoted = true) :
    (n.run cs).quoted = true := by
  induction cs generalizing n with
  | nil => exact hn
  | cons c cs ih =>
    refine ih (fun x hx => h x (List.mem_cons_of_mem c hx)) ?_
    have hblank := h c List.mem_cons_self
    obtain ⟨depth, quoted, escaped⟩ := n
    obtain rfl : quoted = true := hn
    cases escaped with
    | true => rfl
    | false =>
      rw [step_quoted]
      split
      · rfl
      · split
        next hquote =>
          subst hquote
          exact absurd hblank (by decide)
        next => rfl

/-- A scan that ends outside of everything was there before the last blanks, too. -/
theorem eq_top_of_run_blanks {cs : List Char} (h : Text.Blanks cs) {n : Nesting} (hn : n.Valid)
    (hrun : n.run cs = top) : n = top := by
  obtain ⟨depth, quoted, escaped⟩ := n
  cases quoted with
  | true =>
    have hquoted := quoted_run_of_blanks h (n := ⟨depth, true, escaped⟩) rfl
    rw [hrun] at hquoted
    exact nomatch hquoted
  | false =>
    cases escaped with
    | true => exact nomatch hn rfl
    | false => exact (run_level_of_blanks h depth).symm.trans hrun

/-- Only one bracket deep does a closing bracket lead outside. -/
theorem eq_level_one_of_step {n : Nesting} (hn : n.Valid) (h : n.step ']' = top) : n = level 1 := by
  obtain ⟨depth, quoted, escaped⟩ := n
  cases escaped with
  | true =>
    obtain rfl : quoted = true := hn rfl
    exact nomatch h
  | false =>
    cases quoted with
    | true => exact nomatch h
    | false =>
      have hstep : (level depth).step ']' = level (depth + -1) := by
        rw [step_level, if_neg (by decide)]
        rfl
      have htop : level (depth + -1) = top := hstep.symm.trans h
      simp only [level, top, Nesting.mk.injEq, and_true] at htop ⊢
      omega

/-- Whether a scan from any depth from `k` on meets no separating comma and ends at the depth it started from. -/
def Level (k : Nat) (cs : List Char) : Prop :=
  ∀ d : Nat, k ≤ d → (level d).Keeps cs ∧ (level d).run cs = level d

variable {k : Nat} {as bs cs : List Char}

theorem Level.mono {m : Nat} (h : Level k cs) (hkm : k ≤ m) : Level m cs := fun d hd => h d (Nat.le_trans hkm hd)

theorem level_nil (k : Nat) : Level k [] := fun _ _ => ⟨trivial, rfl⟩

theorem Level.append (ha : Level k as) (hb : Level k bs) : Level k (as ++ bs) := by
  intro d hd
  obtain ⟨hkeeps, hrun⟩ := ha d hd
  rw [keeps_append, run_append, hrun]
  exact ⟨⟨hkeeps, (hb d hd).1⟩, (hb d hd).2⟩

theorem Level.cons {c : Char} (hc : isMark c = false) (h : Level k cs) : Level k (c :: cs) := by
  intro d hd
  have hcomma : c ≠ ',' := by
    rintro rfl
    exact absurd hc (by decide)
  rw [Keeps, run_cons, step_level_of_not_isMark hc]
  exact ⟨⟨separates_of_ne hcomma _, (h d hd).1⟩, (h d hd).2⟩

theorem level_of_forall (h : ∀ c ∈ cs, isMark c = false) : Level k cs := by
  induction cs with
  | nil => exact level_nil k
  | cons c cs ih =>
    exact Level.cons (h c List.mem_cons_self) (ih fun x hx => h x (List.mem_cons_of_mem c hx))

theorem level_of_any (h : cs.any isMark = false) : Level k cs :=
  level_of_forall fun c hc => Bool.eq_false_iff.mpr (List.any_eq_false.mp h c hc)

/-- Inside of a bracket commas do not separate. -/
theorem Level.comma_cons (h : Level (k + 1) cs) : Level (k + 1) (',' :: cs) := by
  intro d hd
  rw [Keeps, run_cons, step_level_comma]
  exact ⟨⟨separates_level (by omega) _, (h d hd).1⟩, (h d hd).2⟩

theorem Level.brackets {o c : Char} (ho : turn o = 1) (hc : turn c = -1) (h : Level (k + 1) cs) :
    Level k (o :: cs ++ [c]) := by
  have hne (x y : Char) (hxy : turn x ≠ turn y) : x ≠ y := fun h => hxy (congrArg turn h)
  have hoq : o ≠ '"' := hne o '"' (by rw [ho]; decide)
  have hoc : o ≠ ',' := hne o ',' (by rw [ho]; decide)
  have hcq : c ≠ '"' := hne c '"' (by rw [hc]; decide)
  have hcc : c ≠ ',' := hne c ',' (by rw [hc]; decide)
  intro d hd
  have hopen : (level d).step o = level (d + 1 : Nat) := by
    rw [step_level, if_neg hoq, ho]
    rfl
  have hclose : (level (d + 1 : Nat)).step c = level d := by
    rw [step_level, if_neg hcq, hc, Int.natCast_add, Int.natCast_one, Int.add_neg_cancel_right]
  obtain ⟨hkeeps, hrun⟩ := h (d + 1) (by omega)
  rw [List.cons_append, Keeps, run_cons, hopen, keeps_append, run_append, hrun, run_cons, hclose, run_nil]
  exact ⟨⟨separates_of_ne hoc _, hkeeps, separates_of_ne hcc _, trivial⟩, rfl⟩

private theorem scan_escape (d : Int) (cs rest : List Char) :
    (Nesting.run ⟨d, true, false⟩ (Text.escape cs ++ rest) = Nesting.run ⟨d, true, false⟩ rest) ∧
      (Nesting.Keeps ⟨d, true, false⟩ rest → Nesting.Keeps ⟨d, true, false⟩ (Text.escape cs ++ rest)) := by
  have hquoted (n : Nesting) (hn : n ≠ top) (c : Char) : n.separates c = false := by simp [separates, hn]
  induction cs with
  | nil => exact ⟨rfl, id⟩
  | cons c cs ih =>
    by_cases hc : c = '\\' ∨ c = '"'
    · have hescape : Text.escape (c :: cs) = '\\' :: c :: Text.escape cs := by simp [Text.escape, hc]
      rw [hescape, List.cons_append, List.cons_append, run_cons, run_cons]
      exact ⟨ih.1, fun h => ⟨hquoted _ (by simp [top]) _, hquoted _ (by simp [step_quoted, top]) _, ih.2 h⟩⟩
    · have hescape : Text.escape (c :: cs) = c :: Text.escape cs := by simp [Text.escape, hc]
      have hstep : Nesting.step ⟨d, true, false⟩ c = ⟨d, true, false⟩ := by
        rw [step_quoted, if_neg (fun h => hc (Or.inl h)), if_neg (fun h => hc (Or.inr h))]
      rw [hescape, List.cons_append, run_cons, hstep, Keeps, hstep]
      exact ⟨ih.1, fun h => ⟨hquoted _ (by simp [top]) _, ih.2 h⟩⟩

/-- A string literal is passed as a whole. -/
theorem level_quoted (k : Nat) (cs : List Char) : Level k ('"' :: Text.escape cs ++ ['"']) := by
  intro d _
  have hquote : (level d).step '"' = ⟨d, true, false⟩ := rfl
  have hend : Nesting.step ⟨d, true, false⟩ '"' = level d := rfl
  obtain ⟨hrun, hkeeps⟩ := scan_escape d cs ['"']
  rw [List.cons_append, Keeps, run_cons, hquote, hrun, run_cons, hend, run_nil]
  exact ⟨⟨separates_of_ne (by decide) _, hkeeps ⟨separates_of_ne (by decide) _, trivial⟩⟩, rfl⟩

end Nesting

end TensorEval.Attribute
