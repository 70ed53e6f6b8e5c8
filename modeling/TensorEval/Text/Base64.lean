/-!
Bytes as text in the standard base64 alphabet. Writing pads to whole groups of four symbols;
reading takes any part of the padding.
-/
namespace TensorEval.Text.Base64

def symbol (n : Nat) : Char :=
  if n < 26 then Char.ofNat ('A'.toNat + n)
  else if n < 52 then Char.ofNat ('a'.toNat + (n - 26))
  else if n < 62 then Char.ofNat ('0'.toNat + (n - 52))
  else if n = 62 then '+'
  else '/'

def digit (c : Char) : Option Nat :=
  if 'A' ≤ c ∧ c ≤ 'Z' then some (c.toNat - 'A'.toNat)
  else if 'a' ≤ c ∧ c ≤ 'z' then some (c.toNat - 'a'.toNat + 26)
  else if '0' ≤ c ∧ c ≤ '9' then some (c.toNat - '0'.toNat + 52)
  else if c = '+' then some 62
  else if c = '/' then some 63
  else none

/-- The text of some bytes: four symbols for three bytes, the last group padded. -/
def encode : List UInt8 → List Char
  | [] => []
  | [a] => [symbol (a.toNat / 4), symbol (a.toNat % 4 * 16), '=', '=']
  | [a, b] =>
    [symbol (a.toNat / 4), symbol (a.toNat % 4 * 16 + b.toNat / 16),
      symbol (b.toNat % 16 * 4), '=']
  | a :: b :: c :: rest =>
    symbol (a.toNat / 4) :: symbol (a.toNat % 4 * 16 + b.toNat / 16) ::
      symbol (b.toNat % 16 * 4 + c.toNat / 64) :: symbol (c.toNat % 64) :: encode rest

/-- The byte of two symbols. The bits left over are zero. -/
def oneByte (a b : Char) : Option (List UInt8) := do
  let m ← digit a
  let n ← digit b
  if n % 16 = 0 then some [UInt8.ofNat (m * 4 + n / 16)] else none

def twoBytes (a b c : Char) : Option (List UInt8) := do
  let m ← digit a
  let n ← digit b
  let p ← digit c
  if p % 4 = 0 then some [UInt8.ofNat (m * 4 + n / 16), UInt8.ofNat (n % 16 * 16 + p / 4)]
  else none

def threeBytes (a b c d : Char) : Option (List UInt8) := do
  let m ← digit a
  let n ← digit b
  let p ← digit c
  let q ← digit d
  return [UInt8.ofNat (m * 4 + n / 16), UInt8.ofNat (n % 16 * 16 + p / 4),
    UInt8.ofNat (p % 4 * 64 + q)]

def decode : List Char → Option (List UInt8)
  | [] => some []
  | [_] => none
  | [a, b] => oneByte a b
  | [a, b, c] => if c = '=' then oneByte a b else twoBytes a b c
  | a :: b :: c :: d :: rest =>
    if d = '=' then
      if rest ≠ [] then none
      else if c = '=' then oneByte a b
      else twoBytes a b c
    else do
      let bytes ← threeBytes a b c d
      let others ← decode rest
      return bytes ++ others

private theorem digit_symbol {n : Nat} (h : n < 64) : digit (symbol n) = some n := by
  decide +revert

private theorem symbol_ne_pad {n : Nat} (h : n < 64) : symbol n ≠ '=' := by
  decide +revert

theorem decode_encode (bytes : List UInt8) : decode (encode bytes) = some bytes := by
  fun_induction encode bytes with
  | case1 => rfl
  | case2 a =>
    have ha := a.toNat_lt
    have h₁ := digit_symbol (n := a.toNat / 4) (by omega)
    have h₂ := digit_symbol (n := a.toNat % 4 * 16) (by omega)
    have hz : a.toNat % 4 * 16 % 16 = 0 := by omega
    have hv : a.toNat / 4 * 4 + a.toNat % 4 * 16 / 16 = a.toNat := by omega
    simp only [decode, oneByte, h₁, h₂, hz, hv, Option.bind_eq_bind, Option.bind_some, if_true,
      ne_eq, not_true_eq_false, if_false, UInt8.ofNat_toNat]
  | case3 a b =>
    have ha := a.toNat_lt
    have hb := b.toNat_lt
    have h₁ := digit_symbol (n := a.toNat / 4) (by omega)
    have h₂ := digit_symbol (n := a.toNat % 4 * 16 + b.toNat / 16) (by omega)
    have h₃ := digit_symbol (n := b.toNat % 16 * 4) (by omega)
    have hp := symbol_ne_pad (n := b.toNat % 16 * 4) (by omega)
    have hz : b.toNat % 16 * 4 % 4 = 0 := by omega
    have hv : a.toNat / 4 * 4 + (a.toNat % 4 * 16 + b.toNat / 16) / 16 = a.toNat := by omega
    have hw : (a.toNat % 4 * 16 + b.toNat / 16) % 16 * 16 + b.toNat % 16 * 4 / 4 = b.toNat := by
      omega
    simp only [decode, twoBytes, hp, h₁, h₂, h₃, hz, hv, hw, Option.bind_eq_bind, Option.bind_some,
      if_true, ne_eq, not_true_eq_false, if_false, UInt8.ofNat_toNat]
  | case4 a b c rest ih =>
    have ha := a.toNat_lt
    have hb := b.toNat_lt
    have hc := c.toNat_lt
    have h₁ := digit_symbol (n := a.toNat / 4) (by omega)
    have h₂ := digit_symbol (n := a.toNat % 4 * 16 + b.toNat / 16) (by omega)
    have h₃ := digit_symbol (n := b.toNat % 16 * 4 + c.toNat / 64) (by omega)
    have h₄ := digit_symbol (n := c.toNat % 64) (by omega)
    have hp := symbol_ne_pad (n := c.toNat % 64) (by omega)
    have hv : a.toNat / 4 * 4 + (a.toNat % 4 * 16 + b.toNat / 16) / 16 = a.toNat := by omega
    have hw : (a.toNat % 4 * 16 + b.toNat / 16) % 16 * 16 + (b.toNat % 16 * 4 + c.toNat / 64) / 4 =
        b.toNat := by omega
    have hx : (b.toNat % 16 * 4 + c.toNat / 64) % 4 * 64 + c.toNat % 64 = c.toNat := by omega
    simp only [decode, threeBytes, hp, h₁, h₂, h₃, h₄, hv, hw, hx, ih, Option.bind_eq_bind,
      Option.bind_some, if_false, UInt8.ofNat_toNat]
    rfl

end TensorEval.Text.Base64
