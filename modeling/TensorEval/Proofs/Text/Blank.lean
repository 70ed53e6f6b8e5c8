import TensorEval.Text.Blank

/-! Trimming: a text is the part that trimming leaves, between blanks. -/
namespace TensorEval.Text

def Blanks (cs : List Char) : Prop := ∀ c ∈ cs, isBlank c = true

def Trimmed (cs : List Char) : Prop :=
  (∀ c, cs.head? = some c → isBlank c = false) ∧ ∀ c, cs.getLast? = some c → isBlank c = false

theorem blanks_nil : Blanks [] := fun _ h => absurd h List.not_mem_nil

theorem blanks_space : Blanks [' '] := by
  intro c hc
  obtain rfl := List.mem_singleton.mp hc
  rfl

theorem Blanks.append {l r : List Char} (hl : Blanks l) (hr : Blanks r) : Blanks (l ++ r) := by
  intro c hc
  rcases List.mem_append.mp hc with hc | hc
  · exact hl c hc
  · exact hr c hc

theorem Blanks.reverse {l : List Char} (hl : Blanks l) : Blanks l.reverse := fun c hc => hl c (List.mem_reverse.mp hc)

theorem trimmed_of_forall {cs : List Char} (h : ∀ c ∈ cs, isBlank c = false) : Trimmed cs :=
  ⟨fun c hc => h c (List.mem_of_mem_head? hc), fun c hc => h c (List.mem_of_mem_getLast? hc)⟩

/-- Between two characters that are not blanks a text is trimmed, whatever it is. -/
theorem trimmed_between {o c : Char} (ho : isBlank o = false) (hc : isBlank c = false) (cs : List Char) :
    Trimmed (o :: cs ++ [c]) := by
  constructor
  · intro d hd
    obtain rfl := Option.some.inj hd
    exact ho
  · intro d hd
    rw [List.getLast?_concat] at hd
    obtain rfl := Option.some.inj hd
    exact hc

private theorem dropWhile_blanks {l cs : List Char} (hl : Blanks l) (hcs : ∀ c, cs.head? = some c → isBlank c = false) :
    (l ++ cs).dropWhile isBlank = cs := by
  rw [List.dropWhile_append_of_pos hl]
  cases cs with
  | nil => rfl
  | cons c cs => exact List.dropWhile_cons_of_neg (by simp [hcs c rfl])

private theorem dropWhile_eq_nil {l : List Char} (hl : Blanks l) : l.dropWhile isBlank = [] := by
  have h : (l ++ []).dropWhile isBlank = [] := dropWhile_blanks hl (fun _ h => nomatch h)
  rwa [List.append_nil] at h

/-- Trimming takes away the blanks around a trimmed text. -/
theorem trim_of_parts {l cs r : List Char} (hl : Blanks l) (hcs : Trimmed cs) (hr : Blanks r) :
    trim (l ++ cs ++ r) = cs := by
  obtain ⟨hhead, hlast⟩ := hcs
  cases cs with
  | nil =>
    have hall : Blanks (l ++ [] ++ r) := (hl.append blanks_nil).append hr
    rw [trim, trimStart, dropWhile_eq_nil hall]
    rfl
  | cons c cs =>
    have hstart : trimStart (l ++ (c :: cs) ++ r) = (c :: cs) ++ r := by
      rw [List.append_assoc]
      exact dropWhile_blanks hl (fun d hd => hhead d (by simpa using hd))
    have hend : (r.reverse ++ (c :: cs).reverse).dropWhile isBlank = (c :: cs).reverse := by
      refine dropWhile_blanks hr.reverse (fun d hd => hlast d ?_)
      rwa [List.head?_reverse] at hd
    rw [trim, hstart, trimEnd, List.reverse_append, hend, List.reverse_reverse]

theorem trim_eq_self {cs : List Char} (h : Trimmed cs) : trim cs = cs := by
  have := trim_of_parts blanks_nil h blanks_nil
  rwa [List.nil_append, List.append_nil] at this

private theorem exists_dropWhile (cs : List Char) :
    ∃ l, Blanks l ∧ cs = l ++ cs.dropWhile isBlank := by
  refine ⟨cs.takeWhile isBlank, ?_, List.takeWhile_append_dropWhile.symm⟩
  intro c hc
  exact List.all_eq_true.mp List.all_takeWhile c hc

private theorem head?_dropWhile {cs : List Char} {c : Char} (h : (cs.dropWhile isBlank).head? = some c) :
    isBlank c = false := by
  have := List.head?_dropWhile_not isBlank cs
  rw [h] at this
  simpa using this

theorem trimmed_trim (cs : List Char) : Trimmed (trim cs) := by
  unfold trim trimEnd trimStart
  constructor
  · intro c hc
    -- The head of what is left stands in front of the trailing blanks, so it is the head before they go.
    obtain ⟨r, -, hr⟩ := exists_dropWhile (cs.dropWhile isBlank).reverse
    have hsplit : cs.dropWhile isBlank = ((cs.dropWhile isBlank).reverse.dropWhile isBlank).reverse ++ r.reverse := by
      rw [← List.reverse_append, ← hr, List.reverse_reverse]
    have hhead : (cs.dropWhile isBlank).head? = some c := by
      rw [hsplit, List.head?_append, hc]
      rfl
    exact head?_dropWhile hhead
  · intro c hc
    rw [List.getLast?_reverse] at hc
    exact head?_dropWhile hc

/-- Every text is a trimmed one between blanks. -/
theorem exists_trim (cs : List Char) : ∃ l r, Blanks l ∧ Blanks r ∧ cs = l ++ trim cs ++ r := by
  obtain ⟨l, hl, hcs⟩ := exists_dropWhile cs
  obtain ⟨r, hr, hrest⟩ := exists_dropWhile (cs.dropWhile isBlank).reverse
  refine ⟨l, r.reverse, hl, hr.reverse, ?_⟩
  have hsplit : cs.dropWhile isBlank = trim cs ++ r.reverse := by
    unfold trim trimEnd trimStart
    rw [← List.reverse_append, ← hrest, List.reverse_reverse]
  rw [List.append_assoc, ← hsplit]
  exact hcs

theorem trim_trim (cs : List Char) : trim (trim cs) = trim cs := trim_eq_self (trimmed_trim cs)

theorem trim_blank_cons {c : Char} (hc : isBlank c = true) (cs : List Char) : trim (c :: cs) = trim cs := by
  obtain ⟨l, r, hl, hr, hcs⟩ := exists_trim cs
  have hblanks : Blanks (c :: l) := by
    intro d hd
    rcases List.mem_cons.mp hd with rfl | hd
    · exact hc
    · exact hl d hd
  have h := trim_of_parts hblanks (trimmed_trim cs) hr
  rwa [List.cons_append, List.cons_append, ← hcs] at h

theorem mem_of_mem_trim {c : Char} {cs : List Char} (h : c ∈ trim cs) : c ∈ cs := by
  obtain ⟨l, r, -, -, hcs⟩ := exists_trim cs
  rw [hcs]
  exact List.mem_append_left r (List.mem_append_right l h)

theorem length_trim_le (cs : List Char) : (trim cs).length ≤ cs.length := by
  obtain ⟨l, r, -, -, hcs⟩ := exists_trim cs
  have hlen := congrArg List.length hcs
  simp only [List.length_append] at hlen
  omega

end TensorEval.Text
