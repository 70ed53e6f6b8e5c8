import TensorEval.Json.Numeral
import TensorEval.Json.Writer
import TensorEval.Proofs.Float.Text
import TensorEval.Proofs.Outcome

/-! Numbers in JSON: what is written for an integer or a finite double is a numeral of the grammar, and a numeral is
found whole in front of anything that does not go on with it. -/
namespace TensorEval

private theorem Text.head?_digits {n : Nat} (h : n ≠ 0) : (digits n).head? ≠ some '0' := by
  induction n using Nat.strongRecOn with
  | _ n ih =>
    rcases Nat.lt_or_ge n 10 with hlt | hge
    · rw [digits, Nat.toDigits_of_lt_base hlt]
      have all : ∀ m : Fin 10, m.val ≠ 0 → [Nat.digitChar m].head? ≠ some '0' := by decide
      exact all ⟨n, hlt⟩ h
    · have hsplit : digits n = digits (n / 10) ++ [Nat.digitChar (n % 10)] := Nat.toDigits_of_base_le (by decide) hge
      rw [hsplit, List.head?_append_of_ne_nil _ (digits_ne_nil (n / 10))]
      exact ih (n / 10) (by omega) (by omega)

namespace Json

/-- Whether a text does not go on with a numeral that ends in front of it. -/
def Closes (rest : List Char) : Prop := ∀ c ∈ rest.head?, c.isDigit = false ∧ c ≠ '.' ∧ c ≠ 'e' ∧ c ≠ 'E'

theorem closes_nil : Closes [] := fun _ h => nomatch h

theorem closes_cons {c : Char} (rest : List Char)
    (h : (!c.isDigit && c != '.' && c != 'e' && c != 'E') = true := by decide) : Closes (c :: rest) := by
  intro x hx
  obtain rfl := Option.some.inj hx
  simpa [and_assoc] using h

structure Digits (ds : List Char) : Prop where
  ne_nil : ds ≠ []
  isDigit : ∀ c ∈ ds, c.isDigit = true

namespace Digits
variable {ds : List Char}

private theorem of_nat (n : Nat) : Digits (Text.digits n) := ⟨Text.digits_ne_nil n, fun _ => Text.isDigit_of_mem_digits⟩

private theorem append_zeros (h : Digits ds) (k : Nat) : Digits (ds ++ List.replicate k '0') :=
  ⟨List.append_ne_nil_of_left_ne_nil h.ne_nil _, Decimal.isDigit_append h.isDigit fun _ => Decimal.isDigit_zeros k⟩

private theorem zeros_append (h : Digits ds) (k : Nat) : Digits (List.replicate k '0' ++ ds) :=
  ⟨List.append_ne_nil_of_right_ne_nil _ h.ne_nil, Decimal.isDigit_append (fun _ => Decimal.isDigit_zeros k) h.isDigit⟩

private theorem take (h : Digits ds) {k : Nat} (hk : k ≠ 0) : Digits (ds.take k) :=
  ⟨by simpa [List.take_eq_nil_iff, hk] using h.ne_nil, fun c hc => h.isDigit c (List.mem_of_mem_take hc)⟩

private theorem drop (h : Digits ds) {k : Nat} (hk : k < ds.length) : Digits (ds.drop k) :=
  ⟨by simpa [List.drop_eq_nil_iff] using hk, fun c hc => h.isDigit c (List.mem_of_mem_drop hc)⟩

private theorem of_cons {c : Char} (h : Digits (c :: ds)) : Digits [c] :=
  ⟨List.cons_ne_nil _ _, fun x hx => h.isDigit x (by simp_all)⟩

private theorem tail {c second : Char} (h : Digits (c :: second :: ds)) : Digits (second :: ds) :=
  ⟨List.cons_ne_nil _ _, fun x hx => h.isDigit x (List.mem_cons_of_mem c hx)⟩

end Digits

namespace Numeral

def fractionText : Option (List Char) → List Char
  | none => []
  | some ds => '.' :: ds

def exponentText : Option (Bool × List Char) → List Char
  | none => []
  | some (negative, ds) => 'e' :: (if negative then '-' else '+') :: ds

def text (n : Numeral) : List Char :=
  (if n.negative then ['-'] else []) ++ n.whole ++ fractionText n.fraction ++ exponentText n.exponent

/-- The grammar of numerals. -/
structure WellFormed (n : Numeral) : Prop where
  whole : Digits n.whole
  /-- A zero in front is the only digit before the point. -/
  leading : n.whole.head? = some '0' → n.whole.length = 1
  fraction : ∀ ds ∈ n.fraction, Digits ds
  exponent : ∀ e ∈ n.exponent, Digits e.2

section Split
variable {ds rest : List Char}

private theorem splitDigits_append (h : Digits ds) (hrest : ∀ c ∈ rest.head?, c.isDigit = false) :
    splitDigits (ds ++ rest) = .ok (ds, rest) := by
  have htake : (ds ++ rest).takeWhile Char.isDigit = ds := by
    rw [List.takeWhile_append_of_pos h.isDigit]
    cases rest with
    | nil => simp
    | cons c rest => rw [List.takeWhile_cons_of_neg (by simpa using hrest c rfl), List.append_nil]
  have hdrop : (ds ++ rest).dropWhile Char.isDigit = rest := by
    rw [List.dropWhile_append_of_pos h.isDigit]
    cases rest with
    | nil => rfl
    | cons c rest => exact List.dropWhile_cons_of_neg (by simpa using hrest c rfl)
  unfold splitDigits
  rw [htake, hdrop]
  cases ds with
  | nil => exact absurd rfl h.ne_nil
  | cons d ds => rfl

private theorem splitWhole_append (h : Digits ds) (hleading : ds.head? = some '0' → ds.length = 1)
    (hrest : ∀ c ∈ rest.head?, c.isDigit = false) : splitWhole (ds ++ rest) = .ok (ds, rest) := by
  rw [splitWhole, splitDigits_append h hrest, except_ok_bind]
  dsimp only
  split
  next => exact absurd (hleading rfl) (by simp)
  next => rfl

private theorem splitFraction_append {fraction : Option (List Char)} (h : ∀ ds ∈ fraction, Digits ds)
    (hrest : ∀ c ∈ rest.head?, c.isDigit = false ∧ c ≠ '.') :
    splitFraction (fractionText fraction ++ rest) = .ok (fraction, rest) := by
  cases fraction with
  | none =>
    unfold fractionText splitFraction
    split
    next heq => exact absurd rfl (hrest '.' (by rw [← List.nil_append rest, heq]; rfl)).2
    next => rfl
  | some ds => simp [fractionText, splitFraction, splitDigits_append (h ds rfl) fun c hc => (hrest c hc).1]

private theorem splitExponent_append {exponent : Option (Bool × List Char)} (h : ∀ e ∈ exponent, Digits e.2)
    (hrest : Closes rest) : splitExponent (exponentText exponent ++ rest) = .ok (exponent, rest) := by
  cases exponent with
  | none =>
    cases rest with
    | nil => rfl
    | cons c rest =>
      obtain ⟨-, -, he, hE⟩ := hrest c rfl
      simp [exponentText, splitExponent, he, hE]
  | some e =>
    obtain ⟨negative, ds⟩ := e
    have hdigits := splitDigits_append (h _ rfl) fun c hc => (hrest c hc).1
    cases negative <;> simp [exponentText, splitExponent, splitSign, hdigits]

end Split

def splitUnsigned (negative : Bool) (cs : List Char) : Except Refusal (Numeral × List Char) := do
  let (whole, cs) ← splitWhole cs
  let (fraction, cs) ← splitFraction cs
  let (exponent, cs) ← splitExponent cs
  return (⟨negative, whole, fraction, exponent⟩, cs)

private theorem split_minus (cs : List Char) : split ('-' :: cs) = splitUnsigned true cs := rfl

private theorem split_cons {c : Char} (h : c ≠ '-') (cs : List Char) :
    split (c :: cs) = splitUnsigned false (c :: cs) := by
  unfold split
  split
  next heq =>
    split at heq
    next hcons => exact absurd (List.cons.inj hcons).1 h
    next =>
      obtain ⟨rfl, rfl⟩ := Prod.mk.inj heq
      rfl

private theorem splitUnsigned_append {n : Numeral} (h : n.WellFormed) {rest : List Char} (hrest : Closes rest) :
    splitUnsigned n.negative (n.whole ++ (fractionText n.fraction ++ (exponentText n.exponent ++ rest))) =
      .ok (n, rest) := by
  have hfraction : ∀ c ∈ (exponentText n.exponent ++ rest).head?, c.isDigit = false ∧ c ≠ '.' := by
    cases n.exponent with
    | none => exact fun c hc => ⟨(hrest c hc).1, (hrest c hc).2.1⟩
    | some e =>
      rintro c hc
      obtain rfl := Option.some.inj hc
      decide
  have hwhole : ∀ c ∈ (fractionText n.fraction ++ (exponentText n.exponent ++ rest)).head?, c.isDigit = false := by
    cases n.fraction with
    | none => exact fun c hc => (hfraction c hc).1
    | some ds =>
      rintro c hc
      obtain rfl := Option.some.inj hc
      decide
  simp only [splitUnsigned, splitWhole_append h.whole h.leading hwhole, splitFraction_append h.fraction hfraction,
    splitExponent_append h.exponent hrest, except_ok_bind, except_pure]

/-- A numeral is found whole. -/
theorem split_text {n : Numeral} (h : n.WellFormed) {rest : List Char} (hrest : Closes rest) :
    split (n.text ++ rest) = .ok (n, rest) := by
  have hparts := splitUnsigned_append h hrest
  simp only [text, List.append_assoc]
  cases hsign : n.negative with
  | true =>
    rw [hsign] at hparts
    rw [if_pos rfl, List.singleton_append, split_minus, hparts]
  | false =>
    rw [hsign] at hparts
    obtain ⟨c, cs, hcs⟩ := List.exists_cons_of_ne_nil h.whole.ne_nil
    have hminus : c ≠ '-' := by
      rintro rfl
      exact absurd (h.whole.isDigit '-' (hcs ▸ List.mem_cons_self)) (by decide)
    rw [hcs] at hparts ⊢
    rw [if_neg Bool.false_ne_true, List.nil_append, List.cons_append, split_cons hminus, ← List.cons_append, hparts]

def IsBody (cs : List Char) : Prop :=
  ∃ n : Numeral, n.WellFormed ∧ n.whole ++ fractionText n.fraction ++ exponentText n.exponent = cs

private theorem isBody_parts {whole : List Char} (hw : Digits whole)
    (hleading : whole.head? = some '0' → whole.length = 1)
    (fraction : Option (List Char)) (hf : ∀ ds ∈ fraction, Digits ds) (exponent : Option (Bool × List Char))
    (he : ∀ e ∈ exponent, Digits e.2) : IsBody (whole ++ fractionText fraction ++ exponentText exponent) :=
  ⟨⟨false, whole, fraction, exponent⟩, ⟨hw, hleading, hf, he⟩, rfl⟩

private theorem isBody_point {whole fraction : List Char} (hw : Digits whole)
    (hleading : whole.head? = some '0' → whole.length = 1) (hf : Digits fraction) :
    IsBody (whole ++ '.' :: fraction) := by
  have hparts := isBody_parts hw hleading (some fraction) (by simpa using hf) none (by simp)
  simpa [fractionText, exponentText] using hparts

private theorem isBody_plain {n : Nat} (hn : n ≠ 0) (exponent : Int) :
    IsBody (DecimalStyle.plain (Text.digits n) exponent) := by
  have hds := Digits.of_nat n
  have hhead := Text.head?_digits hn
  generalize Text.digits n = ds at hds hhead
  unfold DecimalStyle.plain
  split
  next =>
    refine isBody_point (hds.append_zeros _) (fun h => ?_) (Digits.of_nat 0)
    rw [List.head?_append_of_ne_nil _ hds.ne_nil] at h
    exact absurd h hhead
  next h =>
    dsimp only
    split
    next hinside =>
      refine isBody_point (hds.take (by omega)) (fun h => ?_) (hds.drop (by omega))
      rw [List.head?_take, if_neg (by omega)] at h
      exact absurd h hhead
    next => exact isBody_point (Digits.of_nat 0) (fun _ => rfl) (hds.zeros_append _)

private theorem exponentText_integer {style : DecimalStyle} (hplus : style.plusSign = true) (n : Int) :
    'e' :: (if style.plusSign ∧ 0 ≤ n then ['+'] else []) ++ Text.integer n =
      exponentText (some (decide (n < 0), Text.digits n.natAbs)) := by
  rcases Int.lt_or_le n 0 with h | h
  · simp [exponentText, Text.integer, hplus, h]
  · simp [exponentText, Text.integer, hplus, h, Int.not_lt.mpr h]

private theorem isBody_scientific {style : DecimalStyle} (hplus : style.plusSign = true) (n : Nat) (leading : Int) :
    IsBody (style.scientific (Text.digits n) leading) := by
  have hds := Digits.of_nat n
  have hexponent : ∀ e ∈ some (decide (leading < 0), Text.digits leading.natAbs), Digits e.2 := by
    rintro e he
    obtain rfl := Option.some.inj he
    exact Digits.of_nat _
  obtain ⟨c, rest, hcs, -⟩ := Text.digits_eq_cons n
  rw [hcs] at hds ⊢
  cases rest with
  | nil =>
    have hparts := isBody_parts hds (fun _ => rfl) none (by simp) _ hexponent
    rw [← exponentText_integer hplus] at hparts
    simpa [DecimalStyle.scientific, fractionText] using hparts
  | cons second rest =>
    have hparts := isBody_parts hds.of_cons (fun _ => rfl) (some (second :: rest)) (by simpa using hds.tail) _ hexponent
    rw [← exponentText_integer hplus] at hparts
    simpa [DecimalStyle.scientific, fractionText] using hparts

private theorem isBody_decimal {style : DecimalStyle} (hplus : style.plusSign = true) {d : Decimal}
    (hd : d.digits ≠ 0) :
    IsBody (style.decimal d) := by
  unfold DecimalStyle.decimal
  dsimp only
  split
  · exact isBody_plain hd d.exponent
  · exact isBody_scientific hplus d.digits _

private theorem exists_text_of_isBody {cs : List Char} (h : IsBody cs) (negative : Bool) :
    ∃ n : Numeral, n.WellFormed ∧ n.text = (if negative then ['-'] else []) ++ cs := by
  obtain ⟨n, ⟨hwhole, hleading, hfraction, hexponent⟩, rfl⟩ := h
  exact ⟨{ n with negative }, ⟨hwhole, hleading, hfraction, hexponent⟩, by simp [text]⟩

/-- The text of a finite double is a numeral. -/
theorem exists_text_finite {x : Double} (hx : x.isFinite = true) :
    ∃ n : Numeral, n.WellFormed ∧ n.text = numberStyle.finite x := by
  refine exists_text_of_isBody ?_ x.negative
  split
  next => exact isBody_point (Digits.of_nat 0) (fun _ => rfl) (Digits.of_nat 0)
  next hzero =>
    refine isBody_decimal rfl fun hdigits => ?_
    have hmagnitude := Decimal.magnitude_shortest numberStyle.tie hx
    rw [Decimal.magnitude, if_pos hdigits] at hmagnitude
    exact hzero (by simp [FloatWord.isZero, ← hmagnitude])

def ofInt (n : Int) : Numeral := ⟨n < 0, Text.digits n.natAbs, none, none⟩

theorem wellFormed_ofInt (n : Int) : (ofInt n).WellFormed := by
  refine ⟨Digits.of_nat _, fun h => ?_, by simp [ofInt], by simp [ofInt]⟩
  by_cases hzero : n.natAbs = 0
  · simp [ofInt, hzero, Text.digits]
  · exact absurd h (Text.head?_digits hzero)

theorem text_ofInt (n : Int) : (ofInt n).text = Text.integer n := by
  simp only [text, ofInt, Text.integer, fractionText, exponentText, List.append_nil, decide_eq_true_eq]
  split <;> rfl

theorem exists_cons_text {n : Numeral} (h : n.WellFormed) :
    ∃ c cs, n.text = c :: cs ∧ (c = '-' ∨ c.isDigit = true) := by
  obtain ⟨c, cs, hcs⟩ := List.exists_cons_of_ne_nil h.whole.ne_nil
  have hc : c.isDigit = true := h.whole.isDigit c (hcs ▸ List.mem_cons_self)
  unfold text
  rw [hcs]
  cases n.negative with
  | true => exact ⟨'-', _, rfl, Or.inl rfl⟩
  | false => exact ⟨c, _, rfl, Or.inr hc⟩

/-- What a numeral is read as does not depend on what follows it. -/
theorem lex_text {n : Numeral} (h : n.WellFormed) {rest : List Char} (hrest : Closes rest) :
    lex (n.text ++ rest) = ((lex n.text).1, rest) := by
  have halone := split_text h closes_nil
  rw [List.append_nil] at halone
  rw [lex, lex, split_text h hrest, halone]
  dsimp only
  cases n.number <;> rfl

private theorem gather_eq {ds : List Char} : ∀ {start : Nat}, Nat.ofDigitChars 10 ds start < wordBound →
    gather start ds = (Nat.ofDigitChars 10 ds start, 0) := by
  induction ds with
  | nil => exact fun _ => rfl
  | cons d ds ih =>
    intro start h
    rw [Nat.ofDigitChars_cons] at h ⊢
    have hle : 10 * start + (d.toNat - '0'.toNat) ≤
        Nat.ofDigitChars 10 ds (10 * start + (d.toNat - '0'.toNat)) := by
      rw [Nat.ofDigitChars_eq_ofDigitChars_zero]
      exact Nat.le_add_right_of_le (Nat.le_mul_of_pos_left _ (Nat.pow_pos (by decide)))
    rw [gather, if_pos (Nat.lt_of_le_of_lt hle h)]
    exact ih h

private theorem gather_digits {n : Nat} (h : n < wordBound) : gather 0 (Text.digits n) = (n, 0) := by
  have hvalue : Nat.ofDigitChars 10 (Text.digits n) 0 = n := Nat.ofDigitChars_ten_toDigits
  rw [gather_eq (hvalue.symm ▸ h), hvalue]

theorem lex_integer {n : Int} {value : Number} (h : (ofInt n).number = some value) :
    (lex (Text.integer n)).1 = .whole value := by
  have hsplit := split_text (wellFormed_ofInt n) closes_nil
  rw [List.append_nil, text_ofInt] at hsplit
  rw [lex, hsplit]
  dsimp only
  rw [h]

/-- A word is read as the integer that it is. -/
theorem lex_word {n : Nat} (h : n < wordBound) : (lex (Text.integer n)).1 = .whole (.unsigned n) := by
  have hsign : ¬(n : Int) < 0 := Int.not_lt.mpr (Int.natCast_nonneg n)
  exact lex_integer (by simp [number, ofInt, gather_digits h, hsign])

/-- And so is a negative word with a sign. -/
theorem lex_negative {n : Nat} (hpos : 0 < n) (h : n ≤ signedBound) :
    (lex (Text.integer (-n))).1 = .whole (.negative (-n)) := by
  have hgather := gather_digits (Nat.lt_of_le_of_lt h (by decide))
  exact lex_integer (by simp [number, ofInt, hgather, hpos, h])

end Numeral

end Json

end TensorEval
