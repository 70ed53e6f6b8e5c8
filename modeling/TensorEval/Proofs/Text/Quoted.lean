import TensorEval.Text.Quoted

/-! The body of a string literal: a body is read in two passes, as one pass from the left would read it, and what was
escaped is read back. -/
namespace TensorEval.Text

def replaceChar (c : Char) (text cs : List Char) : List Char := cs.flatMap fun x => if x = c then text else [x]

/-- The string of a literal body, read once from the left: `\"` is a quote and `\\` a backslash, and every other
character stands for itself. -/
def unescapeOnce : List Char → List Char
  | '\\' :: '"' :: cs => '"' :: unescapeOnce cs
  | '\\' :: '\\' :: cs => '\\' :: unescapeOnce cs
  | c :: cs => c :: unescapeOnce cs
  | [] => []

section Pairs
variable {a b c x : Char}

private theorem replacePair_cons (h : x ≠ a) (cs : List Char) :
    replacePair a b c (x :: cs) = x :: replacePair a b c cs := by
  cases cs with
  | nil => rfl
  | cons y rest => rw [replacePair, if_neg (fun hxy => h hxy.1)]

private theorem replacePair_pair (a b c : Char) (cs : List Char) :
    replacePair a b c (a :: b :: cs) = c :: replacePair a b c cs := by rw [replacePair, if_pos ⟨rfl, rfl⟩]

private theorem replacePair_cons_cons (h : x ≠ b) (cs : List Char) :
    replacePair a b c (a :: x :: cs) = a :: replacePair a b c (x :: cs) := by
  rw [replacePair, if_neg (fun hax => h hax.2)]

end Pairs

private theorem unescape_cons {c : Char} (h : c ≠ '\\') (cs : List Char) : unescape (c :: cs) = c :: unescape cs := by
  rw [unescape, replacePair_cons h, replacePair_cons h, unescape]

private theorem unescape_quote (cs : List Char) : unescape ('\\' :: '"' :: cs) = '"' :: unescape cs := by
  rw [unescape, replacePair_pair, replacePair_cons (by decide), unescape]

/-- The first pass takes the second of two backslashes away if a quote follows it. The first one then stands before that
quote, which is what one pass leaves there. -/
private theorem unescape_backslashes (cs : List Char) : unescape ('\\' :: '\\' :: cs) = '\\' :: unescape cs := by
  have hfirst : replacePair '\\' '"' '"' ('\\' :: '\\' :: cs) = '\\' :: replacePair '\\' '"' '"' ('\\' :: cs) :=
    replacePair_cons_cons (by decide) cs
  rw [unescape, hfirst]
  cases cs with
  | nil => rfl
  | cons c cs =>
    by_cases hquote : c = '"'
    · subst hquote
      rw [replacePair_pair, replacePair_cons_cons (by decide), replacePair_cons (by decide), unescape_cons (by decide),
        unescape]
    · rw [replacePair_cons_cons hquote, replacePair_pair, unescape]

private theorem unescape_backslash_cons {c : Char} (hback : c ≠ '\\') (hquote : c ≠ '"') (cs : List Char) :
    unescape ('\\' :: c :: cs) = '\\' :: unescape (c :: cs) := by
  rw [unescape, unescape, replacePair_cons_cons hquote, replacePair_cons hback, replacePair_cons_cons hback]

theorem unescape_eq_once (cs : List Char) : unescape cs = unescapeOnce cs := by
  fun_induction unescapeOnce cs with
  | case1 cs ih => rw [unescape_quote, ih]
  | case2 cs ih => rw [unescape_backslashes, ih]
  | case3 c cs hquote hback ih =>
    by_cases hc : c = '\\'
    · subst hc
      cases cs with
      | nil => rfl
      | cons d cs =>
        -- This backslash escapes nothing, so neither pass takes it away.
        have hd : d ≠ '\\' := fun h => hback cs rfl (congrArg (· :: cs) h)
        have hd' : d ≠ '"' := fun h => hquote cs rfl (congrArg (· :: cs) h)
        rw [unescape_backslash_cons hd hd', ih]
    · rw [unescape_cons hc, ih]
  | case4 => rfl

/-- Backslashes are doubled first, so the ones before the quotes are not. -/
theorem escape_eq_passes (cs : List Char) :
    escape cs = replaceChar '"' ['\\', '"'] (replaceChar '\\' ['\\', '\\'] cs) := by
  rw [escape, replaceChar, replaceChar, List.flatMap_assoc]
  congr 1
  funext c
  by_cases hback : c = '\\'
  · subst hback
    rfl
  · by_cases hquote : c = '"'
    · subst hquote
      rfl
    · simp [hback, hquote]

theorem unescape_escape (cs : List Char) : unescape (escape cs) = cs := by
  induction cs with
  | nil => rfl
  | cons c cs ih =>
    by_cases hback : c = '\\'
    · have hescape : escape (c :: cs) = '\\' :: '\\' :: escape cs := by simp [escape, hback]
      rw [hescape, unescape_backslashes, ih, hback]
    · by_cases hquote : c = '"'
      · have hescape : escape (c :: cs) = '\\' :: '"' :: escape cs := by simp [escape, hquote]
        rw [hescape, unescape_quote, ih, hquote]
      · have hescape : escape (c :: cs) = c :: escape cs := by simp [escape, hback, hquote]
        rw [hescape, unescape_cons hback, ih]

/-- Reading a body in two passes gives what one pass gives, and it undoes the two passes in which a body is written. -/
theorem unescape_passes :
    (∀ cs, unescape cs = unescapeOnce cs) ∧
      ∀ cs, escape cs = replaceChar '"' ['\\', '"'] (replaceChar '\\' ['\\', '\\'] cs) ∧ unescape (escape cs) = cs :=
  ⟨unescape_eq_once, fun cs => ⟨escape_eq_passes cs, unescape_escape cs⟩⟩

/-- Three backslashes before a quote, and two that escape nothing. -/
example : unescape ['\\', '\\', '\\', '"', '\\', 'n', '\\'] = ['\\', '"', '\\', 'n', '\\'] := rfl

end TensorEval.Text
