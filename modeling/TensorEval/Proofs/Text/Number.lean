import TensorEval.Text.Number

/-! Numbers as text: what is written reads back, in decimal with or without a sign and in hexadecimal, and which
characters it is written with. -/
namespace TensorEval.Text

theorem digits_ne_nil (n : Nat) : digits n ≠ [] := Nat.toDigits_ne_nil

theorem isDigit_of_mem_digits {n : Nat} {c : Char} (h : c ∈ digits n) : c.isDigit = true :=
  Nat.isDigit_of_mem_toDigits (by decide) (by decide) h

private theorem readDigits_of_isDigit {ds : List Char} (hne : ds ≠ []) (hds : ∀ c ∈ ds, c.isDigit = true) :
    readDigits ds = some (Nat.ofDigitChars 10 ds 0) := if_pos ⟨hne, List.all_eq_true.mpr hds⟩

private theorem readDigits_digits (n : Nat) : readDigits (digits n) = some n := by
  rw [readDigits_of_isDigit (digits_ne_nil n) fun _ hc => isDigit_of_mem_digits hc]
  exact congrArg some Nat.ofDigitChars_ten_toDigits

/-- A number begins with a digit. -/
theorem digits_eq_cons (n : Nat) : ∃ c cs, digits n = c :: cs ∧ c.isDigit = true := by
  cases h : digits n with
  | nil => exact absurd h (digits_ne_nil n)
  | cons c cs => exact ⟨c, cs, rfl, isDigit_of_mem_digits (n := n) (by simp [h])⟩

private theorem dropPlus_eq_self {c : Char} {cs : List Char} (h : c ≠ '+') : dropPlus (c :: cs) = c :: cs := by
  unfold dropPlus
  split
  next heq => exact absurd (List.cons.inj heq).1 h
  next => rfl

/-- No sign is taken from a text of digits. -/
theorem dropPlus_of_isDigit {ds : List Char} (hds : ∀ c ∈ ds, c.isDigit = true) : dropPlus ds = ds := by
  cases ds with
  | nil => rfl
  | cons d ds =>
    apply dropPlus_eq_self
    rintro rfl
    exact absurd (hds '+' List.mem_cons_self) (by decide)

private theorem dropPlus_digits (n : Nat) : dropPlus (digits n) = digits n :=
  dropPlus_of_isDigit fun _ hc => isDigit_of_mem_digits hc

theorem readWord_digits {n : Nat} (h : n < wordBound) : readWord (digits n) = some n := by
  rw [readWord, dropPlus_digits, readDigits_digits]
  simp [Option.filter, h]

/-- A decimal integer: digits, with or without a sign in front of them. -/
inductive SignedDigits : List Char → Int → Prop where
  | unsigned {ds : List Char} (hne : ds ≠ []) (hds : ∀ c ∈ ds, c.isDigit = true) :
    SignedDigits ds (Nat.ofDigitChars 10 ds 0)
  | plus {ds : List Char} (hne : ds ≠ []) (hds : ∀ c ∈ ds, c.isDigit = true) :
    SignedDigits ('+' :: ds) (Nat.ofDigitChars 10 ds 0)
  | minus {ds : List Char} (hne : ds ≠ []) (hds : ∀ c ∈ ds, c.isDigit = true) :
    SignedDigits ('-' :: ds) (-Nat.ofDigitChars 10 ds 0)

private theorem signedDigits_digits (n : Nat) : SignedDigits (digits n) n := by
  have h := SignedDigits.unsigned (digits_ne_nil n) fun _ hc => isDigit_of_mem_digits hc
  rwa [digits, Nat.ofDigitChars_ten_toDigits] at h

theorem signedDigits_integer (n : Int) : SignedDigits (integer n) n := by
  unfold integer
  split
  next hneg =>
    have h := SignedDigits.minus (digits_ne_nil n.natAbs) fun _ hc => isDigit_of_mem_digits hc
    have habs : -(n.natAbs : Int) = n := by omega
    rwa [digits, Nat.ofDigitChars_ten_toDigits, habs] at h
  next hneg =>
    have habs : (n.natAbs : Int) = n := by omega
    exact habs ▸ signedDigits_digits n.natAbs

theorem SignedDigits.readInteger_eq {cs : List Char} {n : Int} (h : SignedDigits cs n) : readInteger cs = some n := by
  cases h with
  | unsigned hne hds =>
    unfold readInteger
    split
    · exact absurd (hds '-' List.mem_cons_self) (by decide)
    · rw [dropPlus_of_isDigit hds, readDigits_of_isDigit hne hds]
      rfl
  | plus hne hds =>
    rw [readInteger, dropPlus, readDigits_of_isDigit hne hds]
    · rfl
    · exact fun _ h => absurd (List.cons.inj h).1 (by decide)
  | minus hne hds =>
    rw [readInteger, readDigits_of_isDigit hne hds]
    rfl

theorem readInteger_integer (n : Int) : readInteger (integer n) = some n := (signedDigits_integer n).readInteger_eq

/-- Integers are read as words with a sign as far as they are such words. -/
theorem SignedDigits.readInt64_eq {cs : List Char} {n : Int} (h : SignedDigits cs n) :
    readInt64 cs = if -(signedBound : Int) ≤ n ∧ n < signedBound then some (Int64.ofInt n) else none := by
  rw [readInt64, h.readInteger_eq]
  by_cases hn : -(signedBound : Int) ≤ n ∧ n < signedBound
  · rw [if_pos hn]
    simp [Option.filter, hn]
  · rw [if_neg hn]
    simp only [Option.filter, decide_eq_true_eq, if_neg hn, Option.map_none]

/-- As a word without a sign no integer is read that has the other sign. -/
theorem SignedDigits.readWord_eq {cs : List Char} {n : Int} (h : SignedDigits cs n) (hn : n ≠ 0) :
    readWord cs = if 0 ≤ n ∧ n < wordBound then some n.toNat else none := by
  have hword (k : Nat) : (some k).filter (fun m => decide (m < wordBound)) =
      if 0 ≤ (k : Int) ∧ (k : Int) < wordBound then some (k : Int).toNat else none := by
    by_cases hk : k < wordBound
    · simp [Option.filter, hk]
    · simp [Option.filter, hk]
  cases h with
  | unsigned hne hds => rw [readWord, dropPlus_of_isDigit hds, readDigits_of_isDigit hne hds, hword]
  | plus hne hds => rw [readWord, dropPlus, readDigits_of_isDigit hne hds, hword]
  | @minus ds hne hds =>
    have hminus : readDigits ('-' :: ds) = none :=
      if_neg fun h => absurd (List.all_eq_true.mp h.2 '-' List.mem_cons_self) (by decide)
    rw [readWord, dropPlus_eq_self (by decide), hminus, if_neg (by omega)]
    rfl

theorem SignedDigits.ne_nil {cs : List Char} {n : Int} (h : SignedDigits cs n) : cs ≠ [] := by
  cases h with
  | unsigned hne hds => exact hne
  | plus | minus => exact List.cons_ne_nil _ _

theorem integer_ne_nil (n : Int) : integer n ≠ [] := (signedDigits_integer n).ne_nil

/-- The sign of a positive number may be written. -/
theorem readInteger_plus {n : Int} (h : 0 ≤ n) : readInteger ('+' :: integer n) = some n := by
  have hdigits : integer n = digits n.natAbs := if_neg (by omega)
  have habs : (n.natAbs : Int) = n := by omega
  have hplus := SignedDigits.plus (digits_ne_nil n.natAbs) fun _ hc => isDigit_of_mem_digits hc
  rw [digits, Nat.ofDigitChars_ten_toDigits, habs] at hplus
  rw [hdigits]
  exact hplus.readInteger_eq

def isNumeral (c : Char) : Bool := c.isDigit || c = '.' || c = 'e' || c = '-' || c = '+'

theorem isNumeral_of_isDigit {c : Char} (h : c.isDigit = true) : isNumeral c = true := by simp [isNumeral, h]

theorem SignedDigits.isNumeral_of_mem {cs : List Char} {n : Int} (h : SignedDigits cs n) {c : Char} (hc : c ∈ cs) :
    isNumeral c = true := by
  cases h with
  | unsigned hne hds => exact isNumeral_of_isDigit (hds c hc)
  | plus hne hds | minus hne hds =>
    rcases List.mem_cons.mp hc with rfl | hc
    · rfl
    · exact isNumeral_of_isDigit (hds c hc)

/-- No word with another character is an integer. -/
theorem SignedDigits.ne_of_mem {cs word : List Char} {n : Int} (h : SignedDigits cs n) {c : Char} (hc : c ∈ word)
    (hnot : isNumeral c = false) : cs ≠ word := by
  rintro rfl
  exact Bool.false_ne_true (hnot.symm.trans (h.isNumeral_of_mem hc))

theorem isNumeral_of_mem_integer {n : Int} {c : Char} (h : c ∈ integer n) : isNumeral c = true :=
  (signedDigits_integer n).isNumeral_of_mem h

private theorem hexDigitValue_hexDigit {n : Nat} (h : n < 16) : hexDigitValue (hexDigit n) = some n := by
  have all : ∀ m : Fin 16, hexDigitValue (hexDigit m) = some m.val := by decide
  exact all ⟨n, h⟩

/-- Hexadecimal digits of either case, the most significant one first, and their number. -/
inductive HexDigits : List Char → Nat → Prop where
  | single {c : Char} {d : Nat} (hc : hexDigitValue c = some d) : HexDigits [c] d
  | append {cs : List Char} {n : Nat} (h : HexDigits cs n) {c : Char} {d : Nat} (hc : hexDigitValue c = some d) :
      HexDigits (cs ++ [c]) (16 * n + d)

theorem hexDigits_mod {width : Nat} (hwidth : width ≠ 0) (n : Nat) :
    HexDigits (hexDigits width n) (n % Nat.pow 16 width) := by
  obtain ⟨width, rfl⟩ := Nat.exists_eq_succ_of_ne_zero hwidth
  have hlast (m : Nat) : hexDigitValue (hexDigit (m % 16)) = some (m % 16) :=
    hexDigitValue_hexDigit (Nat.mod_lt m (by decide))
  induction width generalizing n with
  | zero => exact .single (hlast n)
  | succ width ih =>
    have hpow : Nat.pow 16 (width + 1 + 1) = 16 * Nat.pow 16 (width + 1) := Nat.mul_comm _ _
    have hsplit : n % Nat.pow 16 (width + 1 + 1) = 16 * (n / 16 % Nat.pow 16 (width + 1)) + n % 16 := by
      rw [hpow, Nat.mod_mul, Nat.add_comm]
    rw [hsplit]
    exact (ih (n / 16) (Nat.succ_ne_zero width)).append (hlast n)

theorem HexDigits.ne_nil {cs : List Char} {n : Nat} (h : HexDigits cs n) : cs ≠ [] := by
  cases h with
  | single => exact List.cons_ne_nil _ _
  | append => exact List.append_ne_nil_of_right_ne_nil _ (List.cons_ne_nil _ _)

private theorem HexDigits.value_of_mem {cs : List Char} {n : Nat} (h : HexDigits cs n) {c : Char} (hmem : c ∈ cs) :
    ∃ d, hexDigitValue c = some d := by
  induction h with
  | single hc =>
    obtain rfl := List.mem_singleton.mp hmem
    exact ⟨_, hc⟩
  | append _ hc ih =>
    rcases List.mem_append.mp hmem with hmem | hmem
    · exact ih hmem
    · obtain rfl := List.mem_singleton.mp hmem
      exact ⟨_, hc⟩

private theorem HexDigits.readHexDigits_eq {cs : List Char} {n : Nat} (h : HexDigits cs n) :
    readHexDigits cs = some n := by
  rw [readHexDigits, if_neg h.ne_nil]
  induction h with
  | single hc => simp [hc]
  | append _ hc ih =>
    rw [List.foldlM_append, ih]
    simp [hc]

/-- Hexadecimal digits are read as words as far as they are such words. -/
theorem HexDigits.readHexWord_eq {cs : List Char} {n : Nat} (h : HexDigits cs n) :
    readHexWord cs = if n < wordBound then some n else none := by
  have hplus : dropPlus cs = cs := by
    cases cs with
    | nil => rfl
    | cons c cs =>
      apply dropPlus_eq_self
      rintro rfl
      obtain ⟨_, hvalue⟩ := h.value_of_mem List.mem_cons_self
      exact nomatch hvalue
  rw [readHexWord, hplus, h.readHexDigits_eq]
  by_cases hn : n < wordBound
  · simp [Option.filter, hn]
  · simp [Option.filter, hn]

theorem mem_hexDigits {width n : Nat} {c : Char} (h : c ∈ hexDigits width n) : c.isAlphanum = true := by
  induction width generalizing n with
  | zero => exact absurd h List.not_mem_nil
  | succ width ih =>
    rcases List.mem_append.mp h with h | h
    · exact ih h
    · obtain rfl := List.mem_singleton.mp h
      have all : ∀ m : Fin 16, (hexDigit m).isAlphanum = true := by decide
      exact all ⟨n % 16, Nat.mod_lt n (by decide)⟩

/-- A word written with enough hexadecimal digits reads back. -/
theorem readHexWord_hexDigits {width n : Nat} (hwidth : width ≠ 0) (hn : n < Nat.pow 16 width) (hword : n < wordBound) :
    readHexWord (hexDigits width n) = some n := by
  have hdigits := hexDigits_mod hwidth n
  rw [Nat.mod_eq_of_lt hn] at hdigits
  rw [hdigits.readHexWord_eq, if_pos hword]

end TensorEval.Text
