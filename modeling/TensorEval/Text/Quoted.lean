import TensorEval.Text.Formless
/-!
Quoted text: the strings of attribute literals, and names as messages list them.
-/
namespace TensorEval.Text

/-- Every occurrence of the pair `a b`, found from the left without overlap, becomes `c`. -/
def replacePair (a b c : Char) : List Char → List Char
  | x :: y :: rest =>
    if x = a ∧ y = b then c :: replacePair a b c rest else x :: replacePair a b c (y :: rest)
  | cs => cs

def escape (cs : List Char) : List Char :=
  cs.flatMap fun c => if c = '\\' ∨ c = '"' then ['\\', c] else [c]

/-- The string of a literal body: first `\"` is read as a quote everywhere, then `\\` as a
backslash. Other backslashes stand for themselves. -/
def unescape (cs : List Char) : List Char :=
  replacePair '\\' '\\' '\\' (replacePair '\\' '"' '"' cs)

/-- A character of a listed name: quotes, backslashes and the usual controls get a backslash, and
a character without a form of its own is spelled by its code point. -/
def listedChar (c : Char) : List Char :=
  if c = '\\' ∨ c = '"' then ['\\', c]
  else if c = '\t' then ['\\', 't']
  else if c = '\n' then ['\\', 'n']
  else if c = '\r' then ['\\', 'r']
  else if c.toNat = 0 then ['\\', '0']
  else if isFormless c then
    ['\\', 'u', '\x7b'] ++ Nat.toDigits 16 c.toNat ++ ['\x7d']
  else [c]

def listedNames (names : List String) : String :=
  let quoted := names.map fun name =>
    String.ofList ('"' :: name.toList.flatMap listedChar ++ ['"'])
  "[" ++ ", ".intercalate quoted ++ "]"

end TensorEval.Text
