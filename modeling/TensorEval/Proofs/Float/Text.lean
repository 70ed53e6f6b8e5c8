import Mathlib.Control.Basic
import Mathlib.Data.List.TakeWhile
import Mathlib.Data.Option.Basic
import TensorEval.Float.Text
import TensorEval.Proofs.Float.Conversion
import TensorEval.Proofs.Float.Decimal
import TensorEval.Proofs.Text.Number

/-! The text of a double that is no NaN: every layout of a decimal is read as a decimal of the same value, so the text of
the shortest decimal is read as the double it was made for. -/
namespace TensorEval

private theorem DecimalStyle.scientific_cons_cons (style : DecimalStyle) (c second : Char) (rest : List Char)
    (leading : Int) :
    style.scientific (c :: second :: rest) leading = c :: '.' :: (second :: rest ++
      (('e' :: if style.plusSign ∧ 0 ≤ leading then ['+'] else []) ++ Text.integer leading)) := by
  simp only [scientific, List.cons_append, List.append_assoc]

namespace Decimal

section Digits
variable {whole fraction tail : List Char} {n : Int}

private theorem takeWhile_isDigit (h : ∀ c ∈ whole, c.isDigit = true) (rest : List Char) :
    (whole ++ rest).takeWhile Char.isDigit = whole ++ rest.takeWhile Char.isDigit := List.takeWhile_append_of_pos h

private theorem dropWhile_isDigit (h : ∀ c ∈ whole, c.isDigit = true) (rest : List Char) :
    (whole ++ rest).dropWhile Char.isDigit = rest.dropWhile Char.isDigit := List.dropWhile_append_of_pos h

private theorem takeWhile_isDigit_self (h : ∀ c ∈ whole, c.isDigit = true) : whole.takeWhile Char.isDigit = whole := by
  simpa using takeWhile_isDigit h []

private theorem dropWhile_isDigit_self (h : ∀ c ∈ whole, c.isDigit = true) : whole.dropWhile Char.isDigit = [] := by
  simpa using dropWhile_isDigit h []

/-- What may follow the digits of a numeral: nothing, or an exponent. -/
inductive Scale : List Char → Int → Prop where
  | none : Scale [] 0
  | exponent {cs : List Char} {n : Int} (h : Text.readInteger cs = some n) : Scale ('e' :: cs) n

private theorem read_whole (hne : whole ≠ []) (hwhole : ∀ c ∈ whole, c.isDigit = true) (htail : Scale tail n) :
    read (whole ++ tail) = some ⟨Nat.ofDigitChars 10 whole 0, n⟩ := by
  cases htail with
  | none => simp [read, takeWhile_isDigit_self hwhole, dropWhile_isDigit_self hwhole, hne]
  | exponent h =>
    have he : ('e' : Char).isDigit = false := by decide
    simp [read, takeWhile_isDigit hwhole, dropWhile_isDigit hwhole, he, hne, h]

private theorem read_point (whole fraction : List Char) (hne : whole ≠ []) (hwhole : ∀ c ∈ whole, c.isDigit = true)
    (hfraction : ∀ c ∈ fraction, c.isDigit = true) (htail : Scale tail n) :
    read (whole ++ '.' :: (fraction ++ tail)) =
      some ⟨Nat.ofDigitChars 10 (whole ++ fraction) 0, n - fraction.length⟩ := by
  have hpoint : ('.' : Char).isDigit = false := by decide
  cases htail with
  | none =>
    simp [read, takeWhile_isDigit hwhole, dropWhile_isDigit hwhole, hpoint, hne,
      takeWhile_isDigit_self hfraction, dropWhile_isDigit_self hfraction]
  | exponent h =>
    have he : ('e' : Char).isDigit = false := by decide
    simp [read, takeWhile_isDigit hwhole, dropWhile_isDigit hwhole, takeWhile_isDigit hfraction,
      dropWhile_isDigit hfraction, hpoint, he, hne, h]

end Digits

/-- Whether a text is read as a decimal of the same value as `d`. -/
def Spells (cs : List Char) (d : Decimal) : Prop := ∃ d', read cs = some d' ∧ d'.magnitude = d.magnitude

theorem isDigit_zeros (k : Nat) {c : Char} (h : c ∈ List.replicate k '0') : c.isDigit = true := by
  rw [List.eq_of_mem_replicate h]
  decide

theorem isDigit_append {as bs : List Char} (ha : ∀ c ∈ as, c.isDigit = true)
    (hb : ∀ c ∈ bs, c.isDigit = true) : ∀ c ∈ as ++ bs, c.isDigit = true := by
  intro c hc
  rcases List.mem_append.mp hc with hc | hc
  · exact ha c hc
  · exact hb c hc

private theorem digits_all (n : Nat) :
    ∀ c ∈ Text.digits n, c.isDigit = true := fun _ hc => Text.isDigit_of_mem_digits hc

/-- Without a fractional part the zeros up to the point and the one after it belong to the digits. -/
private theorem spells_plain_whole (digits k : Nat) :
    Spells (DecimalStyle.plain (Text.digits digits) k) ⟨digits, k⟩ := by
  have hplain : DecimalStyle.plain (Text.digits digits) k =
      (Text.digits digits ++ List.replicate k '0') ++ '.' :: (['0'] ++ []) := by
    simp [DecimalStyle.plain]
  have hne : Text.digits digits ++ List.replicate k '0' ≠ [] := by simp [Text.digits_ne_nil]
  have hread := read_point _ ['0'] hne (isDigit_append (digits_all digits) fun _ => isDigit_zeros k)
    (fun _ => isDigit_zeros 1) Scale.none
  rw [hplain]
  refine ⟨_, hread, ?_⟩
  have hvalue : Nat.ofDigitChars 10 ((Text.digits digits ++ List.replicate k '0') ++ ['0']) 0 =
      digits * Nat.pow 10 (k + 1) := by
    have hzeros : List.replicate k '0' ++ ['0'] = List.replicate (k + 1) '0' := (List.replicate_succ').symm
    rw [List.append_assoc, hzeros, Nat.ofDigitChars_append, Nat.ofDigitChars_replicate_zero, Text.digits,
      Nat.ofDigitChars_ten_toDigits, Nat.mul_comm]
    rfl
  have hexp : (0 : Int) - (['0'].length : Nat) = (k : Int) - (k + 1 : Nat) := by
    rw [List.length_singleton]
    omega
  rw [hvalue, hexp]
  exact magnitude_mul_pow digits (k + 1) k

private theorem spells_plain_inside {digits places : Nat} (hpos : 0 < places)
    (h : places < (Text.digits digits).length) :
    Spells (DecimalStyle.plain (Text.digits digits) (-places)) ⟨digits, -places⟩ := by
  have hneg : ¬(0 : Int) ≤ -places := by omega
  have hplaces : (- -(places : Int)).toNat = places := by omega
  generalize hds : Text.digits digits = ds at h ⊢
  have hall : ∀ c ∈ ds, c.isDigit = true := hds ▸ digits_all digits
  have hplain : DecimalStyle.plain ds (-places) =
      ds.take (ds.length - places) ++ '.' :: (ds.drop (ds.length - places) ++ []) := by
    simp only [DecimalStyle.plain, if_neg hneg, hplaces, if_pos h, List.append_nil]
  have hne : ds.take (ds.length - places) ≠ [] := by
    have hlen : (ds.take (ds.length - places)).length = ds.length - places := by simp
    intro hnil
    rw [hnil, List.length_nil] at hlen
    omega
  have hread := read_point _ (ds.drop (ds.length - places)) hne (fun c hc => hall c (List.mem_of_mem_take hc))
    (fun c hc => hall c (List.mem_of_mem_drop hc)) Scale.none
  have hvalue : Nat.ofDigitChars 10 ds 0 = digits := by rw [← hds, Text.digits, Nat.ofDigitChars_ten_toDigits]
  have hlen : (ds.drop (ds.length - places)).length = places := by
    rw [List.length_drop]
    omega
  rw [List.take_append_drop, hvalue, hlen] at hread
  rw [hplain]
  exact ⟨_, hread, by rw [Int.zero_sub]⟩

private theorem spells_plain_below {digits places : Nat} (hpos : 0 < places)
    (h : (Text.digits digits).length ≤ places) :
    Spells (DecimalStyle.plain (Text.digits digits) (-places)) ⟨digits, -places⟩ := by
  have hneg : ¬(0 : Int) ≤ -places := by omega
  have hplaces : (- -(places : Int)).toNat = places := by omega
  have hlt : ¬places < (Text.digits digits).length := by omega
  have hplain : DecimalStyle.plain (Text.digits digits) (-places) =
      ['0'] ++ '.' :: ((List.replicate (places - (Text.digits digits).length) '0' ++ Text.digits digits) ++ []) := by
    simp only [DecimalStyle.plain, if_neg hneg, hplaces, if_neg hlt, List.append_nil]
    rfl
  have hread := read_point ['0'] _ (List.cons_ne_nil _ _) (fun _ => isDigit_zeros 1)
    (isDigit_append (fun _ => isDigit_zeros (places - (Text.digits digits).length)) (digits_all digits)) Scale.none
  have hvalue : Nat.ofDigitChars 10
      (['0'] ++ (List.replicate (places - (Text.digits digits).length) '0' ++ Text.digits digits)) 0 = digits := by
    rw [Nat.ofDigitChars_append, Nat.ofDigitChars_append, Nat.ofDigitChars_replicate_zero]
    exact Nat.ofDigitChars_ten_toDigits
  have hlen : (List.replicate (places - (Text.digits digits).length) '0' ++ Text.digits digits).length = places := by
    rw [List.length_append, List.length_replicate]
    omega
  rw [hvalue, hlen] at hread
  rw [hplain]
  exact ⟨_, hread, by rw [Int.zero_sub]⟩

private theorem spells_plain (d : Decimal) : Spells (DecimalStyle.plain (Text.digits d.digits) d.exponent) d := by
  obtain ⟨digits, exponent⟩ := d
  rcases Int.lt_or_le exponent 0 with h | h
  · obtain ⟨places, hplaces⟩ : ∃ places : Nat, exponent = -places := ⟨(-exponent).toNat, by omega⟩
    subst hplaces
    rcases Nat.lt_or_ge places (Text.digits digits).length with hlt | hge
    · exact spells_plain_inside (by omega) hlt
    · exact spells_plain_below (by omega) hge
  · obtain ⟨k, rfl⟩ := Int.eq_ofNat_of_zero_le h
    exact spells_plain_whole digits k

private theorem scale_leading (style : DecimalStyle) (leading : Int) :
    Scale ('e' :: (if style.plusSign ∧ 0 ≤ leading then ['+'] else []) ++ Text.integer leading) leading := by
  split
  next h => exact Scale.exponent (Text.readInteger_plus h.2)
  next => exact Scale.exponent (Text.readInteger_integer leading)

private theorem spells_scientific (style : DecimalStyle) (d : Decimal) :
    Spells (style.scientific (Text.digits d.digits) (d.exponent + (Text.digits d.digits).length - 1)) d := by
  have hvalue : Nat.ofDigitChars 10 (Text.digits d.digits) 0 = d.digits := Nat.ofDigitChars_ten_toDigits
  have hall := digits_all d.digits
  obtain ⟨c, rest, hds, -⟩ := Text.digits_eq_cons d.digits
  rw [hds] at hvalue hall ⊢
  have hfirst : ∀ x ∈ [c], x.isDigit = true := fun x hx => hall x (by simp_all)
  generalize hleading : d.exponent + ((c :: rest).length : Nat) - 1 = leading
  have hscale := scale_leading style leading
  rw [List.length_cons] at hleading
  cases rest with
  | nil =>
    have hread := read_whole (List.cons_ne_nil c []) hfirst hscale
    have hexp : leading = d.exponent := by
      rw [List.length_nil] at hleading
      omega
    rw [hvalue] at hread
    exact ⟨_, hread, by rw [hexp]⟩
  | cons second rest =>
    have hread := read_point [c] (second :: rest) (List.cons_ne_nil c []) hfirst
      (fun x hx => hall x (List.mem_cons_of_mem c hx)) hscale
    have hexp : leading - ((second :: rest).length : Nat) = d.exponent := by omega
    rw [List.singleton_append, List.singleton_append, hvalue, hexp] at hread
    exact ⟨_, by rw [style.scientific_cons_cons, hread], rfl⟩

/-- Every layout of a decimal spells it. -/
theorem spells_decimal (style : DecimalStyle) (d : Decimal) : Spells (style.decimal d) d := by
  simp only [DecimalStyle.decimal]
  split
  · exact spells_plain d
  · exact spells_scientific style d

private theorem read_minus (cs : List Char) : read ('-' :: cs) = none := rfl

private theorem read_plus (cs : List Char) : read ('+' :: cs) = none := rfl

end Decimal

namespace DecimalStyle

variable (style : DecimalStyle)

private theorem isNumeral_of_mem_plain {d : Decimal} {c : Char} (h : c ∈ plain (Text.digits d.digits) d.exponent) :
    Text.isNumeral c = true := by
  have hdigit : ∀ x ∈ Text.digits d.digits, Text.isNumeral x = true :=
    fun _ hx => Text.isNumeral_of_isDigit (Text.isDigit_of_mem_digits hx)
  have hzero : ∀ k, ∀ x ∈ List.replicate k '0', Text.isNumeral x = true := by
    intro k x hx
    rw [List.eq_of_mem_replicate hx]
    rfl
  simp only [plain] at h
  split at h
  next =>
    simp only [List.mem_append, List.mem_cons, List.not_mem_nil, or_false] at h
    rcases h with (h | h) | rfl | rfl
    · exact hdigit c h
    · exact hzero _ c h
    · rfl
    · rfl
  next =>
    split at h
    next =>
      simp only [List.mem_append, List.mem_cons] at h
      rcases h with h | rfl | h
      · exact hdigit c (List.mem_of_mem_take h)
      · rfl
      · exact hdigit c (List.mem_of_mem_drop h)
    next =>
      simp only [List.cons_append, List.mem_append, List.mem_cons] at h
      rcases h with rfl | rfl | h | h
      · rfl
      · rfl
      · exact hzero _ c h
      · exact hdigit c h

private theorem isNumeral_of_mem_scientific {ds : List Char} {leading : Int} (hds : ∀ c ∈ ds, c.isDigit = true)
    {c : Char}
    (h : c ∈ style.scientific ds leading) : Text.isNumeral c = true := by
  have hdigit : ∀ x ∈ ds, Text.isNumeral x = true := fun x hx => Text.isNumeral_of_isDigit (hds x hx)
  have htail : ∀ x ∈ ('e' :: if style.plusSign ∧ 0 ≤ leading then ['+'] else []) ++ Text.integer leading,
      Text.isNumeral x = true := by
    intro x hx
    rw [List.mem_append, List.mem_cons] at hx
    rcases hx with (rfl | hx) | hx
    · rfl
    · split at hx
      · obtain rfl := List.mem_singleton.mp hx
        rfl
      · exact absurd hx List.not_mem_nil
    · exact Text.isNumeral_of_mem_integer hx
  have hparts : ∃ mantissa, (∀ x ∈ mantissa, Text.isNumeral x = true) ∧ style.scientific ds leading =
      mantissa ++ (('e' :: if style.plusSign ∧ 0 ≤ leading then ['+'] else []) ++ Text.integer leading) := by
    cases ds with
    | nil => exact ⟨[], fun x hx => absurd hx List.not_mem_nil, rfl⟩
    | cons d rest =>
      cases rest with
      | nil => exact ⟨[d], hdigit, rfl⟩
      | cons second rest =>
        refine ⟨d :: '.' :: second :: rest, ?_, style.scientific_cons_cons d second rest leading⟩
        intro x hx
        rcases List.mem_cons.mp hx with rfl | hx
        · exact hdigit x List.mem_cons_self
        · rcases List.mem_cons.mp hx with rfl | hx
          · rfl
          · exact hdigit x (List.mem_cons_of_mem d hx)
  obtain ⟨mantissa, hmantissa, htext⟩ := hparts
  rw [htext] at h
  rcases List.mem_append.mp h with h | h
  · exact hmantissa c h
  · exact htail c h

private theorem isNumeral_of_mem_decimal {d : Decimal} {c : Char} (h : c ∈ style.decimal d) :
    Text.isNumeral c = true := by
  simp only [decimal] at h
  split at h
  · exact isNumeral_of_mem_plain h
  · exact style.isNumeral_of_mem_scientific (fun _ hx => Text.isDigit_of_mem_digits hx) h

theorem isNumeral_of_mem_finite {x : Double} {c : Char} (h : c ∈ style.finite x) : Text.isNumeral c = true := by
  rcases List.mem_append.mp h with h | h
  · split at h
    · obtain rfl := List.mem_singleton.mp h
      rfl
    · exact absurd h List.not_mem_nil
  · split at h
    · have hall : ∀ x ∈ ['0', '.', '0'], Text.isNumeral x = true := List.all_eq_true.mp (by decide)
      exact hall c h
    · exact style.isNumeral_of_mem_decimal h

/-- The text of a number has only letters of an infinity beside the characters of numerals. -/
theorem mem_text {x : Double} (hx : x.isNaN = false) {c : Char} (h : c ∈ style.text x) :
    Text.isNumeral c = true ∨ c ∈ ['i', 'n', 'f'] := by
  rw [text, if_neg (hx ▸ Bool.false_ne_true)] at h
  split at h
  · rcases List.mem_append.mp h with h | h
    · split at h
      · exact Or.inl (List.mem_singleton.mp h ▸ rfl)
      · exact absurd h List.not_mem_nil
    · exact Or.inr h
  · exact Or.inl (style.isNumeral_of_mem_finite h)

end DecimalStyle

namespace FloatWord

private theorem read_magnitude (style : DecimalStyle) {x : Double} (hx : x.isFinite = true) :
    ∃ d, Decimal.read (if x.isZero then ['0', '.', '0'] else style.decimal (Decimal.shortest style.tie x)) = some d ∧
      d.magnitude = x.magnitude := by
  split
  next hzero =>
    have hmagnitude : x.magnitude = 0 := by simpa [isZero] using hzero
    exact ⟨⟨0, -1⟩, rfl, hmagnitude.symm⟩
  next =>
    obtain ⟨d, hread, hd⟩ := Decimal.spells_decimal style (Decimal.shortest style.tie x)
    exact ⟨d, hread, hd.trans (Decimal.magnitude_shortest style.tie hx)⟩

private theorem readUnsigned_of_read {cs : List Char} {d : Decimal} {x : Double} (hread : Decimal.read cs = some d)
    (hd : d.magnitude = x.magnitude) : readUnsigned x.negative cs = some x := by
  obtain ⟨negative, magnitude, hlt⟩ := x
  subst hd
  simp [readUnsigned, hread, Decimal.toDouble]

/-- The text of a finite double is read as that double. -/
theorem readDouble_finite (style : DecimalStyle) {x : Double} (hx : x.isFinite = true) :
    readDouble (style.finite x) = some x := by
  obtain ⟨d, hread, hd⟩ := read_magnitude style hx
  unfold DecimalStyle.finite
  generalize (if x.isZero then ['0', '.', '0'] else style.decimal (Decimal.shortest style.tie x)) = cs at hread ⊢
  have hunsigned := readUnsigned_of_read hread hd
  cases hsign : x.negative with
  | true =>
    rw [hsign] at hunsigned
    exact hunsigned
  | false =>
    rw [hsign] at hunsigned
    change readDouble cs = some x
    unfold readDouble
    split
    next => exact absurd hread (by simp [Decimal.read_minus])
    next =>
      have hplus : Text.dropPlus cs = cs := by
        unfold Text.dropPlus
        split
        next => exact absurd hread (by simp [Decimal.read_plus])
        next => rfl
      rw [hplus]
      exact hunsigned

/-- The text of a number, finite or not, is read as that number. -/
theorem readDouble_text (style : DecimalStyle) {x : Double} (hx : x.isNaN = false) :
    readDouble (style.text x) = some x := by
  cases hfinite : x.isFinite with
  | true =>
    have hne : x.isInfinite = false := decide_eq_false (Nat.ne_of_lt (of_decide_eq_true hfinite))
    rw [DecimalStyle.text, if_neg (hx ▸ Bool.false_ne_true), if_neg (hne ▸ Bool.false_ne_true)]
    exact readDouble_finite style hfinite
  | false =>
    rw [eq_infinite hfinite hx]
    cases x.negative <;> rfl

private theorem readUnsigned_of_isDigit (negative : Bool) {ds : List Char} (hne : ds ≠ [])
    (hds : ∀ c ∈ ds, c.isDigit = true) : readUnsigned negative ds =
      some (round .binary64 negative (Nat.ofDigitChars 10 ds 0 * Nat.pow 2 FloatFormat.binary64.scale) 1) := by
  have hread : Decimal.read ds = some ⟨Nat.ofDigitChars 10 ds 0, 0⟩ := by
    have h := Decimal.read_whole hne hds Decimal.Scale.none
    rwa [List.append_nil] at h
  have hratio (k : Nat) : Decimal.ratio .binary64 ⟨k, 0⟩ = (k * Nat.pow 2 FloatFormat.binary64.scale, 1) :=
    congrArg (fun m => (m * Nat.pow 2 FloatFormat.binary64.scale, 1)) (Nat.mul_one k)
  have hmagnitude : Decimal.magnitude ⟨Nat.ofDigitChars 10 ds 0, 0⟩ = FloatFormat.binary64.roundMagnitude
      (Nat.ofDigitChars 10 ds 0 * Nat.pow 2 FloatFormat.binary64.scale) 1 := by rw [Decimal.magnitude_eq, hratio]
  exact readUnsigned_of_read (x := round .binary64 negative _ 1) hread hmagnitude

/-- The decimal text of an integer is read as the double nearest to it. The sign of a zero would be kept. -/
theorem readDouble_of_signedDigits {cs : List Char} {n : Int} (h : Text.SignedDigits cs n) (hn : n ≠ 0) :
    readDouble cs = some (ofInt .binary64 n) := by
  have hpositive (k : Nat) : ofInt .binary64 k =
      round .binary64 false (k * Nat.pow 2 FloatFormat.binary64.scale) 1 := by
    rw [ofInt, decide_eq_false (by omega), Int.natAbs_natCast]
  cases h with
  | unsigned hne hds =>
    unfold readDouble
    split
    · exact absurd (hds '-' List.mem_cons_self) (by decide)
    · rw [Text.dropPlus_of_isDigit hds, readUnsigned_of_isDigit false hne hds, hpositive]
  | plus hne hds => exact (readUnsigned_of_isDigit false hne hds).trans (congrArg some (hpositive _).symm)
  | minus hne hds =>
    rw [readDouble, readUnsigned_of_isDigit true hne hds, ofInt, decide_eq_true (by omega), Int.natAbs_neg,
      Int.natAbs_natCast]

end FloatWord

end TensorEval
