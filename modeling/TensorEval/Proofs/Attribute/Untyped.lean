import TensorEval.Proofs.Attribute.Scalar

/-! Decimal integers without a type: they are read like those of 64 bits as long as they fit a word with a sign. Only
where the type is written a greater word is wrapped; without it the number is read as a double. -/
namespace TensorEval.Attribute

private theorem typedParts_of_no_colon {cs : List Char} (h : ∀ c ∈ cs, c ≠ ':') : typedParts cs = none := by
  have hrest : cs.dropWhile (· ≠ ':') = [] := List.dropWhile_eq_nil_iff.mpr fun c hc => decide_eq_true (h c hc)
  simp only [typedParts, hrest]

section Integer
variable {cs : List Char} {n : Int} (h : Text.SignedDigits cs n)
include h

private theorem token_of_signedDigits : Token cs := ⟨h.ne_nil, fun _ hc => isToken_of_isNumeral (h.isNumeral_of_mem hc)⟩

/-- With a type after it, an integer is read if it is a word with a sign or without one. -/
theorem read_typed_integer_iff {a : Attribute} : read (cs ++ typeSuffix .i64) = .ok a ↔
    -(signedBound : Int) ≤ n ∧ n < wordBound ∧ a = .integer (Int64.ofInt n) .i64 := by
  rw [read_typed_iff (token_of_signedDigits h), readTyped, if_neg (by decide), readInteger,
    readInteger?_of_signedDigits h]
  by_cases hn : -(signedBound : Int) ≤ n ∧ n < wordBound
  · rw [if_pos hn]
    simp [hn, eq_comm]
  · rw [if_neg hn]
    refine iff_of_false ?_ fun hread => hn ⟨hread.1, hread.2.1⟩
    intro hread
    cases hread

/-- Without a type, an integer that is no word with a sign is read as a double. -/
theorem read_untyped_integer : read cs = .ok (if -(signedBound : Int) ≤ n ∧ n < signedBound then
    .integer (Int64.ofInt n) .i64 else .float (.ofInt .binary64 n) .f64) := by
  have htoken := token_of_signedDigits h
  have htrim : Text.trim cs = cs := Text.trim_eq_self htoken.trimmed
  have hform : Form.of (Text.trim cs) = .plain := by
    rw [htrim]
    exact form_eq_plain h.ne_nil (h.ne_of_mem (c := 'u') (by decide) (by decide)) fun c hc =>
      not_isMark_of_isToken (htoken.2 c hc)
  have hparts : typedParts cs = none := typedParts_of_no_colon fun c hc => ne_colon_of_isToken (htoken.2 c hc)
  rw [read_plain_iff hform, htrim, readPlain, if_neg (h.ne_of_mem (c := 't') (by decide) (by decide)),
    if_neg (h.ne_of_mem (c := 'f') (by decide) (by decide)), hparts]
  dsimp only
  rw [h.readInt64_eq]
  by_cases hn : -(signedBound : Int) ≤ n ∧ n < signedBound
  · rw [if_pos hn, if_pos hn]
  · have hzero : n ≠ 0 := by
      rintro rfl
      exact hn (by decide)
    rw [if_neg hn, if_neg hn]
    dsimp only
    rw [FloatWord.readDouble_of_signedDigits h hzero]

end Integer

/-- A decimal integer that is read with the type `i64` is the same attribute without it exactly if it fits a word with a
sign. A greater one is wrapped to a word with the type, and it is the double next to it without the type. -/
theorem untyped_eq_typed_iff {t : String} {n : Int} (h : Text.SignedDigits t.toList n) :
    (∀ a, ofString (t ++ " : i64") = .ok a ↔
      -(signedBound : Int) ≤ n ∧ n < wordBound ∧ a = .integer (Int64.ofInt n) .i64) ∧
    (∀ a, ofString (t ++ " : i64") = .ok a → (ofString t = .ok a ↔ n < signedBound)) ∧
    (signedBound ≤ n → ofString t = .ok (.float (.ofInt .binary64 n) .f64)) := by
  have htyped (a : Attribute) : ofString (t ++ " : i64") = .ok a ↔
      -(signedBound : Int) ≤ n ∧ n < wordBound ∧ a = .integer (Int64.ofInt n) .i64 := by
    rw [ofString, String.toList_append]
    exact read_typed_integer_iff h
  have huntyped : ofString t = _ := read_untyped_integer h
  refine ⟨htyped, fun a ha => ?_, fun hn => ?_⟩
  · obtain ⟨hlow, -, rfl⟩ := (htyped a).mp ha
    rw [huntyped]
    by_cases hn : n < signedBound
    · rw [if_pos ⟨hlow, hn⟩]
      exact iff_of_true rfl hn
    · rw [if_neg fun hword => hn hword.2]
      exact iff_of_false (fun heq => nomatch Except.ok.inj heq) hn
  · rw [huntyped, if_neg fun hword => Int.not_lt.mpr hn hword.2]

/-- The least number that is no word with a sign. -/
theorem untyped_ne_typed_leastBeyond :
    ofString ("9223372036854775808" ++ " : i64") = .ok (.integer Int64.minValue .i64) ∧
      ofString "9223372036854775808" = .ok (.float (.ofInt .binary64 9223372036854775808) .f64) ∧
      ofString "9223372036854775808" ≠ ofString ("9223372036854775808" ++ " : i64") := by
  have hdigits : Text.SignedDigits "9223372036854775808".toList 9223372036854775808 :=
    Text.SignedDigits.unsigned (by decide) (List.all_eq_true.mp (by decide))
  obtain ⟨htyped, hsame, hbeyond⟩ := untyped_eq_typed_iff hdigits
  have hword : Int64.minValue = Int64.ofInt 9223372036854775808 := by decide
  have hwrapped := (htyped (.integer Int64.minValue .i64)).mpr ⟨by decide, by decide, by rw [hword]⟩
  refine ⟨hwrapped, hbeyond (by decide), fun heq => ?_⟩
  exact absurd ((hsame _ hwrapped).mp (heq.trans hwrapped)) (by decide)

end TensorEval.Attribute
