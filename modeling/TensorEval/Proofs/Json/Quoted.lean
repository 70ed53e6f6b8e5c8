import TensorEval.Json.Token
import TensorEval.Json.Writer

/-! Strings in JSON: what is written between quotes is read as the string that was written, whatever its characters. -/
namespace TensorEval.Json

namespace Piece

private theorem join_char (c : Char) (rest : List Piece) : join (char c :: rest) = (join rest).map (c :: ·) := rfl

private theorem join_codeUnit {n : Nat} (h : n < 0xD800) (rest : List Piece) :
    join (codeUnit n :: rest) = (join rest).map (Char.ofNat n :: ·) := by
  have hleading : isLeadingSurrogate n = false := by
    simp only [isLeadingSurrogate, Bool.and_eq_false_imp, decide_eq_true_eq]
    omega
  have htrailing : isTrailingSurrogate n = false := by
    simp only [isTrailingSurrogate, Bool.and_eq_false_imp, decide_eq_true_eq]
    omega
  cases rest with
  | nil => simp [join, hleading, htrailing]
  | cons piece rest =>
    cases piece with
    | char c => simp [join, hleading, htrailing, Function.comp_def]
    | codeUnit m => simp [join, hleading, htrailing]

private theorem split_escaped {c d : Char} (hu : c ≠ 'u') (h : escaped c = some d) (cs : List Char) :
    split ('\\' :: c :: cs) = (char d :: (split cs).1, (split cs).2) := by
  simp [split, h]

private theorem split_plain {c : Char} (hquote : c ≠ '"') (hback : c ≠ '\\') (hcontrol : ¬ c < ' ') (cs : List Char) :
    split (c :: cs) = (char c :: (split cs).1, (split cs).2) := by
  simp [split, hback, hcontrol]

private theorem split_unit {a b c d : Char} {n : Nat} (h : spelledUnit [a, b, c, d] = .ok n) (cs : List Char) :
    split ('\\' :: 'u' :: a :: b :: c :: d :: cs) = (codeUnit n :: (split cs).1, (split cs).2) := by
  have htake : spelledUnit (a :: b :: c :: d :: cs) = .ok n := h
  simp [split, htake]

private theorem spelledUnit_control (n : Fin 0x20) :
    spelledUnit ['0', '0', Nat.digitChar (n / 16), Nat.digitChar (n % 16)] = .ok n.val := by
  have hsome : ∀ n : Fin 0x20,
      (spelledUnit ['0', '0', Nat.digitChar (n / 16), Nat.digitChar (n % 16)]).toOption = some n.val := by decide
  specialize hsome n
  cases h : spelledUnit ['0', '0', Nat.digitChar (n / 16), Nat.digitChar (n % 16)] with
  | error fault => simp [h, Except.toOption] at hsome
  | ok m =>
    rw [h] at hsome
    exact congrArg Except.ok (Option.some.inj hsome)

private theorem split_escapedChar (c : Char) (cs : List Char) : ∃ piece,
    split (escapedChar c ++ cs) = (piece :: (split cs).1, (split cs).2) ∧
      ∀ rest, join (piece :: rest) = (join rest).map (c :: ·) := by
  have short {d : Char} (hd : d ≠ 'u') (he : escaped d = some c) : ∃ piece,
      split (['\\', d] ++ cs) = (piece :: (split cs).1, (split cs).2) ∧
        ∀ rest, join (piece :: rest) = (join rest).map (c :: ·) :=
    ⟨char c, split_escaped hd he cs, join_char c⟩
  unfold escapedChar
  split
  · rename_i h
    rcases h with rfl | rfl <;> exact short (by decide) rfl
  rename_i hmark
  obtain ⟨hquote, hback⟩ := not_or.mp hmark
  iterate 5
    split
    · subst_vars
      exact short (by decide) rfl
  split
  · rename_i hcontrol
    have hlt : c.toNat < 0x20 := hcontrol
    refine ⟨codeUnit c.toNat, split_unit (spelledUnit_control ⟨c.toNat, hlt⟩) cs, fun rest => ?_⟩
    rw [join_codeUnit (by omega), Char.ofNat_toNat]
  · rename_i hcontrol
    exact ⟨char c, split_plain hquote hback hcontrol cs, join_char c⟩

/-- The body of a written string up to its closing quote. -/
theorem split_body (s rest : List Char) :
    ∃ pieces, split (s.flatMap escapedChar ++ '"' :: rest) = (pieces, .ok rest) ∧ join pieces = some s := by
  induction s with
  | nil => exact ⟨[], by simp [split], rfl⟩
  | cons c s ih =>
    obtain ⟨pieces, hsplit, hjoin⟩ := ih
    rw [List.flatMap_cons, List.append_assoc]
    obtain ⟨piece, hpiece, hchar⟩ := split_escapedChar c (s.flatMap escapedChar ++ '"' :: rest)
    refine ⟨piece :: pieces, ?_, ?_⟩
    · rw [hpiece, hsplit]
    · rw [hchar, hjoin, Option.map_some]

end Piece

/-- A written string is read up to its closing quote. -/
theorem Token.lexString_quoted (s : String) (rest : List Char) :
    lexString (s.toList.flatMap escapedChar ++ '"' :: rest) = (.whole s, rest) := by
  obtain ⟨pieces, hsplit, hjoin⟩ := Piece.split_body s.toList rest
  simp only [lexString, hsplit, hjoin, String.ofList_toList]

end TensorEval.Json
