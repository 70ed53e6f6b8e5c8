import Mathlib.Data.List.Basic
import TensorEval.Proofs.Attribute.Reader
import TensorEval.Proofs.Float.Conversion
import TensorEval.Proofs.Float.Text

/-! Numbers as attributes: the text of a number of any type is read as that number, also inside of a dense literal. -/
namespace TensorEval

namespace Attribute

def isToken (c : Char) : Bool := c.isAlphanum || c = '.' || c = '+' || c = '-'

private theorem isToken_of_isAlphanum {c : Char} (h : c.isAlphanum = true) : isToken c = true := by simp [isToken, h]

theorem isToken_of_isNumeral {c : Char} (h : Text.isNumeral c = true) : isToken c = true := by
  simp only [Text.isNumeral, Bool.or_eq_true, decide_eq_true_eq] at h
  rcases h with (((h | rfl) | rfl) | rfl) | rfl
  · simp [isToken, Char.isAlphanum, h]
  all_goals rfl

def Token (cs : List Char) : Prop := cs ≠ [] ∧ ∀ c ∈ cs, isToken c = true

theorem token_of_all {cs : List Char} (hne : cs ≠ []) (h : cs.all isToken = true) : Token cs :=
  ⟨hne, List.all_eq_true.mp h⟩

private theorem range_of_isAlphanum {c : Char} (h : c.isAlphanum = true) :
    (65 ≤ c.toNat ∧ c.toNat ≤ 90) ∨ (97 ≤ c.toNat ∧ c.toNat ≤ 122) ∨ (48 ≤ c.toNat ∧ c.toNat ≤ 57) := by
  have hrange {m n : UInt32} (h : m ≤ c.val ∧ c.val ≤ n) : m.toNat ≤ c.toNat ∧ c.toNat ≤ n.toNat :=
    h.imp UInt32.le_iff_toNat_le.mp UInt32.le_iff_toNat_le.mp
  have hand {m n : UInt32} (h : (decide (m ≤ c.val) && decide (c.val ≤ n)) = true) : m ≤ c.val ∧ c.val ≤ n :=
    (Bool.and_eq_true_iff.mp h).imp of_decide_eq_true of_decide_eq_true
  rcases Bool.or_eq_true_iff.mp h with halpha | hdigit
  · rcases Bool.or_eq_true_iff.mp halpha with hupper | hlower
    · exact .inl (hrange (of_decide_eq_true hupper))
    · exact .inr (.inl (hrange (hand hlower)))
  · exact .inr (.inr (hrange (hand hdigit)))

private theorem not_isBlank_of_isToken {c : Char} (h : isToken c = true) : Text.isBlank c = false := by
  simp only [isToken, Bool.or_eq_true, decide_eq_true_eq] at h
  rcases h with ((h | rfl) | rfl) | rfl
  · have hrange := range_of_isAlphanum h
    simp only [Text.isBlank, Bool.or_eq_false_iff, Bool.and_eq_false_iff, decide_eq_false_iff_not]
    omega
  all_goals rfl

theorem not_isMark_of_isToken {c : Char} (h : isToken c = true) : Nesting.isMark c = false :=
  Nesting.not_isMark_of (by decide) h

theorem ne_colon_of_isToken {c : Char} (h : isToken c = true) : c ≠ ':' := by
  rintro rfl
  exact absurd h (by decide)

theorem token_integer (n : Int) : Token (Text.integer n) :=
  ⟨Text.integer_ne_nil n, fun _ hc => isToken_of_isNumeral (Text.isNumeral_of_mem_integer hc)⟩

/-- The word format in which values of a type that are not finite are written. -/
def wordFormat : ElementType → FloatFormat
  | .f16 => .binary16
  | .bf16 => .bfloat16
  | .f32 => .binary32
  | _ => .binary64

def hexWidth : FloatFormat → Nat
  | .binary16 => 4
  | .bfloat16 => 4
  | .binary32 => 8
  | .binary64 => 16

private theorem bitsText_eq (x : Double) (type : ElementType) :
    bitsText x type = Text.hexDigits (hexWidth (wordFormat type)) (x.narrow (wordFormat type)).bits := by
  cases type <;> rfl

theorem doubleOfBits_eq (type : ElementType) (bits : Nat) :
    doubleOfBits type bits = (FloatWord.ofBits (wordFormat type) bits).widen := by
  cases type <;> rfl

private theorem bits_lt {F : FloatFormat} (x : FloatWord F) : x.bits < Nat.pow 16 (hexWidth F) := by
  have hbound : 2 * F.magnitudeBound = Nat.pow 16 (hexWidth F) := by cases F <;> decide
  exact hbound ▸ x.bits_lt

private theorem readHexWord_bits {F : FloatFormat} (x : FloatWord F) :
    Text.readHexWord (Text.hexDigits (hexWidth F) x.bits) = some x.bits := by
  have hlt := bits_lt x
  have hword : Nat.pow 16 (hexWidth F) ≤ wordBound := by cases F <;> decide
  exact Text.readHexWord_hexDigits (by cases F <;> decide) hlt (Nat.lt_of_lt_of_le hlt hword)

/-- Whether the text of a value of a type keeps the value: a finite one it always does, another one if the word format
of the type holds it. -/
def Kept (type : ElementType) (x : Double) : Prop :=
  x.isFinite = false → (x.narrow (wordFormat type)).widen = x

private theorem kept_f64 (x : Double) : Kept .f64 x := fun _ => rfl

private theorem magnitude_le_infinity (d : Decimal) : d.magnitude ≤ FloatFormat.binary64.infinity := by
  rw [Decimal.magnitude_eq]
  exact Nat.min_le_right _ _

private theorem readDouble_cases {cs : List Char} {x : Double} (h : FloatWord.readDouble cs = some x) :
    x.isNaN = false ∨ ∃ negative, x = { FloatWord.nan .binary64 with negative } := by
  have hunsigned : ∀ negative ds, FloatWord.readUnsigned negative ds = some x →
      x.isNaN = false ∨ ∃ negative, x = { FloatWord.nan .binary64 with negative } := by
    intro negative ds h
    unfold FloatWord.readUnsigned at h
    split at h
    next d _ =>
      obtain rfl := Option.some.inj h
      exact Or.inl (decide_eq_false (Nat.not_lt.mpr (magnitude_le_infinity d)))
    next =>
      dsimp only at h
      split at h
      · obtain rfl := Option.some.inj h
        exact Or.inl (decide_eq_false (Nat.lt_irrefl _))
      · split at h
        · exact Or.inr ⟨negative, (Option.some.inj h).symm⟩
        · cases h
  unfold FloatWord.readDouble at h
  split at h
  · exact hunsigned _ _ h
  · exact hunsigned _ _ h

private theorem widen_nan (F : FloatFormat) (negative : Bool) :
    ({ FloatWord.nan F with negative } : FloatWord F).widen = { FloatWord.nan .binary64 with negative } := by
  cases F <;> cases negative <;> rfl

/-- Values that are read are kept. -/
theorem kept_of_readFloat {type : ElementType} {token : List Char} {x : Double}
    (h : readFloat type token = .ok x) : Kept type x := by
  intro hfinite
  unfold readFloat at h
  split at h
  next digits _ =>
    split at h
    next bits _ =>
      obtain rfl := Except.ok.inj h
      rw [doubleOfBits_eq] at hfinite ⊢
      exact FloatWord.widen_narrow_widen _ hfinite
    next => exact nomatch h
  next =>
    split at h
    next y hread =>
      obtain rfl := Except.ok.inj h
      rcases readDouble_cases hread with hnan | ⟨negative, rfl⟩
      · exact FloatWord.widen_narrow_of_infinite _ hfinite hnan
      · rw [← widen_nan (wordFormat type)] at hfinite ⊢
        exact FloatWord.widen_narrow_widen _ hfinite
    next => exact nomatch h

private theorem afterHexMark_eq_none {cs : List Char} (h : ∀ c ∈ cs, Text.isNumeral c = true) :
    afterHexMark cs = none := by
  unfold afterHexMark
  split
  · exact absurd (h 'x' (by simp)) (by decide)
  · exact absurd (h 'X' (by simp)) (by decide)
  · rfl

theorem token_floatText (type : ElementType) (x : Double) : Token (floatText type x) := by
  unfold floatText
  split
  next hfinite =>
    refine ⟨?_, fun c hc => isToken_of_isNumeral (DecimalStyle.isNumeral_of_mem_finite _ hc)⟩
    intro hnil
    have hread := FloatWord.readDouble_finite .display hfinite
    rw [hnil] at hread
    exact nomatch hread
  next =>
    refine ⟨List.cons_ne_nil _ _, ?_⟩
    intro c hc
    rw [bitsText_eq] at hc
    rcases List.mem_cons.mp hc with rfl | hc
    · rfl
    · rcases List.mem_cons.mp hc with rfl | hc
      · rfl
      · exact isToken_of_isAlphanum (Text.mem_hexDigits hc)

/-- The text of a value that is kept is read as the value. -/
theorem readFloat_floatText {type : ElementType} {x : Double} (h : Kept type x) :
    readFloat type (floatText type x) = .ok x := by
  unfold floatText
  split
  next hfinite =>
    have hmark := afterHexMark_eq_none fun c hc => DecimalStyle.isNumeral_of_mem_finite .display (x := x) hc
    rw [readFloat, hmark]
    simp only [FloatWord.readDouble_finite .display hfinite]
  next hfinite =>
    rw [Bool.not_eq_true] at hfinite
    have hmark : afterHexMark ('0' :: 'x' :: bitsText x type) = some (bitsText x type) := rfl
    rw [readFloat, hmark]
    simp only [bitsText_eq, readHexWord_bits, doubleOfBits_eq, FloatWord.ofBits_bits, h hfinite]

/-- The integer that the text of an integer of a type is read as: of type `i1` only truth values are written. -/
def canonicalInteger (type : ElementType) (n : Int64) : Int64 :=
  if type = .i1 then (if n ≠ 0 then 1 else 0) else n

theorem token_integerText (type : ElementType) (n : Int64) : Token (integerText type n) := by
  unfold integerText
  split
  · split
    · exact token_of_all (by decide) (by decide)
    · exact token_of_all (by decide) (by decide)
  · exact token_integer n.toInt

theorem integerText_canonicalInteger (type : ElementType) (n : Int64) :
    integerText type (canonicalInteger type n) = integerText type n := by
  unfold integerText canonicalInteger
  by_cases htype : type = .i1
  · by_cases hn : n = 0
    · simp [htype, hn]
    · simp [htype, hn]
  · simp [htype]

/-- Integers from the least word with a sign to the greatest one without are read, as words with a sign. -/
theorem readInteger?_of_signedDigits {cs : List Char} {n : Int} (h : Text.SignedDigits cs n) :
    readInteger? cs = if -(signedBound : Int) ≤ n ∧ n < wordBound then some (Int64.ofInt n) else none := by
  have htrue : cs ≠ "true".toList := h.ne_of_mem (c := 't') (by decide) (by decide)
  have hfalse : cs ≠ "false".toList := h.ne_of_mem (c := 'f') (by decide) (by decide)
  have hbound : (signedBound : Int) ≤ wordBound := by decide
  rw [readInteger?, if_neg htrue, if_neg hfalse, afterHexMark_eq_none fun _ hc => h.isNumeral_of_mem hc]
  dsimp only
  rw [h.readInt64_eq]
  by_cases hsigned : -(signedBound : Int) ≤ n ∧ n < signedBound
  · rw [if_pos hsigned, if_pos ⟨hsigned.1, Int.lt_of_lt_of_le hsigned.2 hbound⟩]
    rfl
  · have hzero : n ≠ 0 := by
      rintro rfl
      exact hsigned (by decide)
    rw [if_neg hsigned, h.readWord_eq hzero]
    by_cases hword : 0 ≤ n ∧ n < wordBound
    · obtain ⟨k, rfl⟩ : ∃ k : Nat, n = k := ⟨n.toNat, (Int.toNat_of_nonneg hword.1).symm⟩
      rw [if_pos hword, if_pos ⟨Int.le_trans (by decide) hword.1, hword.2⟩, Int64.ofInt_eq_ofNat]
      rfl
    · rw [if_neg hword, if_neg (by omega)]
      rfl

theorem readInteger?_integer {n : Int} (hlow : -(signedBound : Int) ≤ n) (hhigh : n < wordBound) :
    readInteger? (Text.integer n) = some (Int64.ofInt n) := by
  rw [readInteger?_of_signedDigits (Text.signedDigits_integer n), if_pos ⟨hlow, hhigh⟩]

theorem readInteger_integerText (type : ElementType) (n : Int64) :
    readInteger (integerText type n) = .ok (canonicalInteger type n) := by
  unfold integerText canonicalInteger
  split
  · split <;> rfl
  · have hlow : -(signedBound : Int) ≤ n.toInt := Int64.le_toInt n
    have hhigh : n.toInt < wordBound := Int.lt_trans (Int64.toInt_lt n) (by decide)
    rw [readInteger, readInteger?_integer hlow hhigh, Int64.ofInt_toInt]

theorem token_name (type : ElementType) : Token type.name.toList := by
  cases type <;> exact token_of_all (by decide) (by decide)

theorem isTypeWord_name (type : ElementType) : isTypeWord type.name.toList = true := by
  cases type <;> decide

theorem Token.trimmed {cs : List Char} (h : Token cs) : Text.Trimmed cs :=
  Text.trimmed_of_forall fun c hc => not_isBlank_of_isToken (h.2 c hc)

theorem Token.level {cs : List Char} (h : Token cs) : Nesting.Level 0 cs :=
  Nesting.level_of_forall fun c hc => not_isMark_of_isToken (h.2 c hc)

private theorem typedParts_typeSuffix {cs : List Char} (h : Token cs) (type : ElementType) :
    typedParts (cs ++ typeSuffix type) = some (cs, type.name.toList) := by
  have hsuffix : cs ++ typeSuffix type = (cs ++ [' ']) ++ ':' :: ' ' :: type.name.toList := by simp [typeSuffix]
  have hcolon : ∀ c ∈ cs ++ [' '], (decide (c ≠ ':')) = true := by
    intro c hc
    rcases List.mem_append.mp hc with hc | hc
    · exact decide_eq_true (ne_colon_of_isToken (h.2 c hc))
    · obtain rfl := List.mem_singleton.mp hc
      rfl
  have hvalue : (cs ++ typeSuffix type).takeWhile (· ≠ ':') = cs ++ [' '] := by
    rw [hsuffix, List.takeWhile_append_of_pos hcolon, List.takeWhile_cons_of_neg (by decide), List.append_nil]
  have hrest : (cs ++ typeSuffix type).dropWhile (· ≠ ':') = ':' :: ' ' :: type.name.toList := by
    rw [hsuffix, List.dropWhile_append_of_pos hcolon, List.dropWhile_cons_of_neg (by decide)]
  have hword : Text.trimStart (' ' :: type.name.toList) = type.name.toList := by cases type <;> rfl
  have htrim : Text.trim (cs ++ [' ']) = cs := Text.trim_of_parts Text.blanks_nil h.trimmed Text.blanks_space
  have hne : cs ++ [' '] ≠ [] := by simp
  simp only [typedParts, hvalue, hrest, hword, htrim, isTypeWord_name, and_true, if_pos hne]

theorem form_eq_plain {cs : List Char} (hne : cs ≠ []) (hunit : cs ≠ "unit".toList)
    (hmark : ∀ c ∈ cs, Nesting.isMark c = false) : Form.of cs = .plain := by
  have hquoted : quotedBody cs = none := by
    unfold quotedBody
    split
    · exact absurd (hmark '"' List.mem_cons_self) (by decide)
    · rfl
  have hstart (start : List Char) (c : Char) (hc : c ∈ start) (hcmark : Nesting.isMark c = true) :
      afterStart start cs = none := by
    cases h : afterStart start cs with
    | none => rfl
    | some rest =>
      have hmem : c ∈ cs := afterStart_eq_some h ▸ List.mem_append_left rest hc
      rw [hmark c hmem] at hcmark
      exact nomatch hcmark
  have hdense : denseParts cs = none := by
    rw [denseParts, hstart "dense<".toList '<' (by decide) (by decide)]
    rfl
  rw [Form.of, if_neg hne, if_neg hunit, hquoted, hdense, hstart ['['] '[' (by decide) (by decide)]

/-- Whether a text is a token with a scalar type behind a colon. -/
def WritesScalar (type : ElementType) (token cs : List Char) : Prop :=
  Form.of (Text.trim cs) = .plain ∧ typedParts (Text.trim cs) = some (token, type.name.toList)

/-- A number with its type is read as a number of that type. -/
theorem WritesScalar.read_iff {type : ElementType} {token cs : List Char} (h : WritesScalar type token cs)
    {a : Attribute} : read cs = .ok a ↔ readTyped type token = .ok a := by
  obtain ⟨hform, hparts⟩ := h
  have hne (word : String) (hword : typedParts word.toList = none) : Text.trim cs ≠ word.toList := by
    intro heq
    rw [← heq, hparts] at hword
    exact nomatch hword
  rw [read_plain_iff hform, readPlain, if_neg (hne "true" rfl), if_neg (hne "false" rfl), hparts]
  dsimp only
  rw [String.ofList_toList, ElementType.ofName?_name]

section Typed
variable {cs : List Char} (h : Token cs) (type : ElementType)
include h

private theorem mem_typed {c : Char} (hc : c ∈ cs ++ typeSuffix type) : isToken c = true ∨ c = ' ' ∨ c = ':' := by
  have hsuffix : typeSuffix type = ' ' :: ':' :: ' ' :: type.name.toList := rfl
  rw [hsuffix, List.mem_append, List.mem_cons, List.mem_cons, List.mem_cons] at hc
  rcases hc with hc | rfl | rfl | rfl | hc
  · exact Or.inl (h.2 c hc)
  · exact Or.inr (Or.inl rfl)
  · exact Or.inr (Or.inr rfl)
  · exact Or.inr (Or.inl rfl)
  · exact Or.inl ((token_name type).2 c hc)

private theorem not_isMark_of_mem_typed : ∀ c ∈ cs ++ typeSuffix type, Nesting.isMark c = false := by
  intro c hc
  rcases mem_typed h type hc with hc | rfl | rfl
  · exact not_isMark_of_isToken hc
  · rfl
  · rfl

private theorem trimmed_typed : Text.Trimmed (cs ++ typeSuffix type) := by
  constructor
  · intro c hc
    rw [List.head?_append_of_ne_nil _ h.1] at hc
    exact h.trimmed.1 c hc
  · intro c hc
    have hname := (token_name type).1
    have hsuffix : cs ++ typeSuffix type = (cs ++ [' ', ':', ' ']) ++ type.name.toList := by simp [typeSuffix]
    rw [hsuffix, List.getLast?_append_of_ne_nil _ hname] at hc
    exact (token_name type).trimmed.2 c hc

theorem writesScalar_typed : WritesScalar type cs (cs ++ typeSuffix type) := by
  have hcolon : ':' ∈ cs ++ typeSuffix type := List.mem_append_right cs (by simp [typeSuffix])
  have hunit : cs ++ typeSuffix type ≠ "unit".toList := fun heq => absurd (heq ▸ hcolon) (by decide)
  rw [WritesScalar, Text.trim_eq_self (trimmed_typed h type), typedParts_typeSuffix h]
  exact ⟨form_eq_plain (List.ne_nil_of_mem hcolon) hunit (not_isMark_of_mem_typed h type), rfl⟩

theorem read_typed_iff {a : Attribute} : read (cs ++ typeSuffix type) = .ok a ↔ readTyped type cs = .ok a :=
  (writesScalar_typed h type).read_iff

theorem read_typed {a : Attribute} (hread : readTyped type cs = .ok a) : read (cs ++ typeSuffix type) = .ok a :=
  (read_typed_iff h type).mpr hread

end Typed

theorem read_float {type : ElementType} {x : Double} (htype : type.isFloat = true) (hx : Kept type x) :
    read (text (float x type)) = .ok (float x type) := by
  apply read_typed (token_floatText type x)
  rw [readTyped, if_pos htype, readFloat_floatText hx]
  rfl

theorem read_integer {type : ElementType} (htype : type.isFloat = false) (n : Int64) :
    read (text (integer n type)) = .ok (integer (canonicalInteger type n) type) := by
  by_cases hflag : type = .i1
  · subst hflag
    by_cases hn : n = 0
    · subst hn
      rfl
    · have htext : text (integer n .i1) = "true".toList := by simp [text, integerText, hn]
      have hvalue : canonicalInteger .i1 n = 1 := by simp [canonicalInteger, hn]
      rw [htext, hvalue]
      rfl
  · rw [text, if_neg hflag]
    apply read_typed (token_integerText type n)
    rw [readTyped, if_neg (by simp [htype]), readInteger_integerText]
    rfl

theorem level_float (type : ElementType) (x : Double) : Nesting.Level 0 (text (float x type)) :=
  Nesting.level_of_forall (not_isMark_of_mem_typed (token_floatText type x) type)

theorem level_integer (type : ElementType) (n : Int64) : Nesting.Level 0 (text (integer n type)) := by
  rw [text]
  split
  · rw [List.append_nil]
    exact (token_integerText type n).level
  · exact Nesting.level_of_forall (not_isMark_of_mem_typed (token_integerText type n) type)

private theorem readTyped_cases {type : ElementType} {token : List Char} {a : Attribute}
    (h : readTyped type token = .ok a) :
    (∃ x, a = float x type ∧ type.isFloat = true ∧ Kept type x) ∨ ∃ n, a = integer n type ∧ type.isFloat = false := by
  rw [readTyped] at h
  split at h
  next htype =>
    obtain ⟨x, hx, rfl⟩ := except_map_eq_ok.mp h
    exact Or.inl ⟨x, rfl, htype, kept_of_readFloat hx⟩
  next htype =>
    obtain ⟨n, -, rfl⟩ := except_map_eq_ok.mp h
    exact Or.inr ⟨n, rfl, by simpa using htype⟩

/-- What can be read from a text without quotes and brackets at its start: a number of a type, which its text keeps,
or a type. -/
theorem readPlain_cases {cs : List Char} {a : Attribute} (h : readPlain cs = .ok a) :
    (∃ x type, a = float x type ∧ type.isFloat = true ∧ Kept type x) ∨
      (∃ n type, a = integer n type ∧ type.isFloat = false) ∨ a = typeName (String.ofList cs) := by
  rw [readPlain] at h
  split at h
  · exact Or.inr (Or.inl ⟨1, .i1, (Except.ok.inj h).symm, rfl⟩)
  split at h
  · exact Or.inr (Or.inl ⟨0, .i1, (Except.ok.inj h).symm, rfl⟩)
  split at h
  next value word _ =>
    split at h
    next type _ =>
      rcases readTyped_cases h with ⟨x, ha, hx⟩ | ⟨n, ha, hn⟩
      · exact Or.inl ⟨x, type, ha, hx⟩
      · exact Or.inr (Or.inl ⟨n, type, ha, hn⟩)
    next => exact nomatch h
  next =>
    split at h
    next n _ => exact Or.inr (Or.inl ⟨n, .i64, (Except.ok.inj h).symm, rfl⟩)
    next =>
      split at h
      next x _ => exact Or.inl ⟨x, .f64, (Except.ok.inj h).symm, rfl, kept_f64 x⟩
      next =>
        split at h
        · exact Or.inr (Or.inr (Except.ok.inj h).symm)
        · exact nomatch h

end Attribute

end TensorEval
