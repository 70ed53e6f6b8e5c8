import TensorEval.Proofs.Attribute.Splat

/-! Hexadecimal bits in attributes: they survive the way through a double into the elements of a constant, unless they are
a NaN. Any word of 64 bits is read, of which a type takes as many as it has, from the low end. -/
namespace TensorEval

/-- Whether an element has the bits of a pattern, or is a NaN as the pattern is. -/
def Carrier.HasBits (c : Carrier) (v : c.Value) (pattern : Nat) : Prop :=
  c.code v = pattern ∨ c.isNaN v = true ∧ c.isNaN (c.ofCode pattern) = true

private theorem Tensor.Filled.hasBits {x : Tensor} {type : ElementType} {shape : Shape} {value : Fill} {pattern : Nat}
    (h : x.Filled type shape value) (hbits : type.carrier.HasBits (Element.ofFill type value) pattern) :
    x.type = type ∧ ∀ v ∈ x.elements, x.type.carrier.HasBits v pattern := by
  obtain ⟨type', shape', elements, hlen⟩ := x
  obtain ⟨rfl, rfl⟩ := Prod.mk.inj h.form
  refine ⟨rfl, fun v hv => ?_⟩
  rwa [Carrier.code_inj.mp (h.element v hv)]

namespace FloatWord

private theorem ofBits_mod (F : FloatFormat) (n : Nat) : ofBits F (n % (2 * F.magnitudeBound)) = ofBits F n := by
  refine ext_magnitude ?_ (Nat.mod_mul_left_mod n 2 F.magnitudeBound)
  rw [ofBits, ofBits, Nat.mod_mul_left_div_self, Nat.mod_mod]

private theorem hasBits_narrow_widen (F : FloatFormat) (n : Nat) :
    (Carrier.floating F).HasBits ((ofBits F n).widen.narrow F) (n % (2 * F.magnitudeBound)) := by
  have hlt : n % (2 * F.magnitudeBound) < 2 * F.magnitudeBound :=
    Nat.mod_lt n (Nat.mul_pos Nat.two_pos (Nat.two_pow_pos _))
  rw [← ofBits_mod F n]
  cases hnan : (ofBits F (n % (2 * F.magnitudeBound))).isNaN with
  | false =>
    rw [narrow_widen_of_not_isNaN hnan]
    exact Or.inl (bits_ofBits hlt)
  | true => exact Or.inr ⟨isNaN_narrow F (isNaN_widen hnan), hnan⟩

end FloatWord

namespace Attribute
variable {type : ElementType} {digits : List Char} {n : Nat}

private theorem hasBits_doubleOfBits (htype : type.isFloat = true) (n : Nat) :
    type.carrier.HasBits (Element.ofFill type (.float (doubleOfBits type n))) (n % Nat.pow 2 (8 * type.byteWidth)) := by
  rw [doubleOfBits_eq]
  cases type with
  | f16 => exact FloatWord.hasBits_narrow_widen .binary16 n
  | bf16 => exact FloatWord.hasBits_narrow_widen .bfloat16 n
  | f32 => exact FloatWord.hasBits_narrow_widen .binary32 n
  | f64 => exact FloatWord.hasBits_narrow_widen .binary64 n
  | i1 | i8 | i16 | i32 | i64 => exact nomatch htype

private theorem readFloat_hexDigits (h : Text.HexDigits digits n) : readFloat type ('0' :: 'x' :: digits) =
    if n < wordBound then .ok (doubleOfBits type n) else .error (.invalidBits (String.ofList ('0' :: 'x' :: digits))) := by
  rw [readFloat, afterHexMark]
  dsimp only
  rw [h.readHexWord_eq]
  by_cases hn : n < wordBound
  · rw [if_pos hn, if_pos hn]
  · rw [if_neg hn, if_neg hn]

/-- Whether a token is among the values of a text that is a dense literal. -/
def WritesValue (type : ElementType) (token cs : List Char) : Prop :=
  ∃ body contents shape tokens, Form.of (Text.trim cs) = .dense body contents ∧
    readTensorType contents = .ok (shape, type) ∧ bodyTokens shape body = .ok tokens ∧ token ∈ tokens

section Constant
variable {token cs : List Char} {a : Attribute} (htype : type.isFloat = true)
include htype

private theorem WritesScalar.filled (h : WritesScalar type token cs) (hread : read cs = .ok a) :
    ∃ x, readFloat type token = .ok x ∧
      ∀ limit y, Kernel.materialize limit a = .ok y → ∃ shape, y.Filled type shape (.float x) := by
  rw [h.read_iff, readTyped, if_pos htype] at hread
  obtain ⟨x, hx, rfl⟩ := except_map_eq_ok.mp hread
  refine ⟨x, hx, fun limit y hy => ?_⟩
  obtain ⟨shape, _, _, hparts, hfilled⟩ := filled_of_materialize hy
  cases hparts
  exact ⟨_, hfilled⟩

/-- A constant is made of every value of its list, since they are the same element. -/
private theorem WritesValue.filled (h : WritesValue type token cs) (hread : read cs = .ok a) :
    ∃ x, readFloat type token = .ok x ∧
      ∀ limit y, Kernel.materialize limit a = .ok y → ∃ shape, y.Filled type shape (.float x) := by
  obtain ⟨body, contents, shape, tokens, hform, hcontents, htokens, hmem⟩ := h
  rw [read_dense_iff hform, readDenseParts_eq hcontents, readDense_eq, htokens, except_ok_bind, if_pos htype] at hread
  obtain ⟨values, hvalues, hread⟩ := except_bind_eq_ok.mp hread
  obtain rfl := Except.ok.inj hread
  obtain ⟨x, hx, hvalue⟩ := exists_of_mem_forall₂ (except_mapM_eq_ok.mp hvalues).flip hmem
  refine ⟨x, hvalue, fun limit y hy => ⟨shape, ?_⟩⟩
  obtain ⟨_, _, _, hparts, hfilled⟩ := filled_of_materialize hy
  obtain ⟨value, huniform, heq⟩ := except_map_eq_ok.mp hparts
  cases heq
  have hcollapse := Dense.uniform_eq_ok.mp huniform
  exact hfilled.congr (ofFill_of_collapse (fun _ _ => decide_eq_true_iff) hcollapse hx).symm

end Constant

/-- Hexadecimal bits of a float type are read if they fit a word of 64 bits, whatever the width of the type is. A constant
holds as many of them as the type has, from the low end, or a NaN if these are a NaN. -/
theorem ofString_hexDigits {s : String} (htype : type.isFloat = true) (h : Text.HexDigits digits n) :
    (WritesScalar type ('0' :: 'x' :: digits) s.toList → ((∃ a, ofString s = .ok a) ↔ n < wordBound)) ∧
    ∀ a, ofString s = .ok a →
      WritesScalar type ('0' :: 'x' :: digits) s.toList ∨ WritesValue type ('0' :: 'x' :: digits) s.toList →
      n < wordBound ∧ ∀ limit x, Kernel.materialize limit a = .ok x →
        x.type = type ∧ ∀ v ∈ x.elements, x.type.carrier.HasBits v (n % Nat.pow 2 (8 * type.byteWidth)) := by
  constructor
  · intro hscalar
    have hread (a : Attribute) : ofString s = .ok a ↔ _ := hscalar.read_iff
    simp only [hread, readTyped, if_pos htype, except_map_eq_ok, readFloat_hexDigits h]
    by_cases hn : n < wordBound
    · rw [if_pos hn]
      exact iff_of_true ⟨_, _, rfl, rfl⟩ hn
    · rw [if_neg hn]
      refine iff_of_false ?_ hn
      rintro ⟨_, _, hx, -⟩
      cases hx
  · intro a hread hwrites
    obtain ⟨x, hx, hfilled⟩ := hwrites.elim (·.filled htype hread) (·.filled htype hread)
    rw [readFloat_hexDigits h] at hx
    split at hx
    next hn =>
      obtain rfl := Except.ok.inj hx
      refine ⟨hn, fun limit y hy => ?_⟩
      obtain ⟨shape, hy⟩ := hfilled limit y hy
      exact hy.hasBits (hasBits_doubleOfBits htype n)
    next => cases hx

/-- More bits than the type has: the constant holds the low ones, those of an infinity. -/
theorem ofString_hexDigits_tooWide : Nat.pow 2 (8 * ElementType.f16.byteWidth) ≤ 0x1FC00 ∧
    ∃ a v, ofString "0x1FC00 : f16" = .ok a ∧ Kernel.materialize defaultLimit a = .ok ⟨.f16, [], [v], rfl⟩ ∧
      ElementType.f16.carrier.code v = 0xFC00 := by
  have hdigits : Text.HexDigits "1FC00".toList 0x1FC00 := Text.hexDigits_mod (by decide : 5 ≠ 0) 0x1FC00
  have htext : "0x1FC00 : f16".toList = "0x1FC00".toList ++ typeSuffix .f16 := by decide
  have hscalar : WritesScalar .f16 "0x1FC00".toList "0x1FC00 : f16".toList := by
    rw [htext]
    exact writesScalar_typed (token_of_all (by decide) (by decide)) .f16
  have hread : ofString "0x1FC00 : f16" = .ok (float (doubleOfBits .f16 0x1FC00) .f16) := rfl
  have hconstant : Kernel.materialize defaultLimit (float (doubleOfBits .f16 0x1FC00) .f16) =
      .ok ⟨.f16, [], [Element.ofFill .f16 (.float (doubleOfBits .f16 0x1FC00))], rfl⟩ := rfl
  have hfloat : ElementType.f16.isFloat = true := rfl
  obtain ⟨-, hholds⟩ := (ofString_hexDigits hfloat hdigits).2 _ hread (Or.inl hscalar)
  obtain ⟨-, hbits⟩ := hholds _ _ hconstant
  refine ⟨by decide, _, _, hread, hconstant, (hbits _ List.mem_cons_self).resolve_right fun hnan => ?_⟩
  exact absurd hnan.2 (by decide)

end Attribute

end TensorEval
