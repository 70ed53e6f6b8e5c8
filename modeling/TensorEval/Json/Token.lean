import TensorEval.Json.Numeral
import TensorEval.Text.Number
/-!
The tokens of a JSON text, and the strings among them with their escapes.
-/
namespace TensorEval.Json

inductive Token where
  | beginObject | endObject | beginArray | endArray | comma | colon
  | null
  | boolean (value : Bool)
  | number (value : Leaf Number)
  | string (value : Leaf String)
  /-- Text that starts no token. -/
  | broken (fault : Refusal)
  deriving DecidableEq

/-- A part of a string body: a character, or a UTF-16 code unit that is spelled by its number. -/
inductive Piece where
  | char (c : Char)
  | codeUnit (n : Nat)
  deriving DecidableEq, Repr

namespace Piece

def isLeadingSurrogate (n : Nat) : Bool := 0xD800 ≤ n && n < 0xDC00
def isTrailingSurrogate (n : Nat) : Bool := 0xDC00 ≤ n && n < 0xE000

def pairedChar (leading trailing : Nat) : Char :=
  Char.ofNat (0x10000 + (leading - 0xD800) * 0x400 + (trailing - 0xDC00))

/-- The characters of a string body, if surrogates come in pairs only. -/
def join : List Piece → Option (List Char)
  | [] => some []
  | char c :: rest => (join rest).map (c :: ·)
  | [codeUnit n] =>
    if isLeadingSurrogate n || isTrailingSurrogate n then none else some [Char.ofNat n]
  | codeUnit n :: char c :: rest =>
    if isLeadingSurrogate n || isTrailingSurrogate n then none
    else (join rest).map (Char.ofNat n :: c :: ·)
  | codeUnit n :: codeUnit m :: rest =>
    if isLeadingSurrogate n then
      if isTrailingSurrogate m then (join rest).map (pairedChar n m :: ·) else none
    else if isTrailingSurrogate n then none
    else (join (codeUnit m :: rest)).map (Char.ofNat n :: ·)

/-- The pieces without a leading surrogate at the end, whose partner can still follow. -/
def settled (pieces : List Piece) : List Piece :=
  match pieces.getLast? with
  | some (codeUnit n) => if isLeadingSurrogate n then pieces.dropLast else pieces
  | _ => pieces

def escaped (c : Char) : Option Char :=
  if c = '"' ∨ c = '\\' ∨ c = '/' then some c
  else if c = 'b' then some '\x08'
  else if c = 'f' then some '\x0c'
  else if c = 'n' then some '\n'
  else if c = 'r' then some '\r'
  else if c = 't' then some '\t'
  else none

/-- The code unit that four hexadecimal digits spell. Fewer than four bytes of text break off. -/
def spelledUnit (cs : List Char) : Except Refusal Nat :=
  let digits := cs.take 4
  if (String.ofList digits).utf8ByteSize < 4 then .error .truncated
  else if digits.length < 4 then .error .malformed
  else match Text.readHexDigits digits with
    | some n => .ok n
    | none => .error .malformed

/-- The pieces of a string body up to the closing quote, and what follows that or the fault that
prevents it. -/
def split : List Char → List Piece × Except Refusal (List Char)
  | [] => ([], .error .truncated)
  | '"' :: cs => ([], .ok cs)
  | ['\\'] => ([], .error .truncated)
  | '\\' :: 'u' :: cs =>
    match spelledUnit cs with
    | .error fault => ([], .error fault)
    | .ok n =>
      match cs with
      | _ :: _ :: _ :: _ :: cs =>
        let (pieces, ending) := split cs
        (codeUnit n :: pieces, ending)
      | _ => ([], .error .malformed)
  | '\\' :: c :: cs =>
    match escaped c with
    | some d =>
      let (pieces, ending) := split cs
      (char d :: pieces, ending)
    | none => ([], .error .malformed)
  | c :: cs =>
    if c < ' ' then ([], .error .malformed)
    else
      let (pieces, ending) := split cs
      (char c :: pieces, ending)

end Piece

namespace Token

/-- The string after an opening quote, and what follows it. Where the text is at fault, half of a
surrogate pair before that is found first, unless the value is skipped. -/
def lexString (cs : List Char) : Leaf String × List Char :=
  match Piece.split cs with
  | (pieces, .ok rest) =>
    match Piece.join pieces with
    | some chars => (.whole (String.ofList chars), rest)
    | none => (.unreadable, rest)
  | (pieces, .error fault) =>
    if (Piece.join (Piece.settled pieces)).isSome then (.broken fault fault, [])
    else (.broken .malformed fault, [])

def afterWord : List Char → List Char → Except Refusal (List Char)
  | [], cs => .ok cs
  | _ :: _, [] => .error .truncated
  | w :: ws, c :: cs => if w = c then afterWord ws cs else .error .malformed

def lexWord (word : String) (token : Token) (cs : List Char) : Token × List Char :=
  match afterWord word.toList cs with
  | .ok rest => (token, rest)
  | .error fault => (broken fault, [])

def isSpace (c : Char) : Bool := c = ' ' || c = '\t' || c = '\n' || c = '\r'

def lexOne (c : Char) (cs : List Char) : Token × List Char :=
  if c = '\x7b' then (beginObject, cs)
  else if c = '\x7d' then (endObject, cs)
  else if c = '[' then (beginArray, cs)
  else if c = ']' then (endArray, cs)
  else if c = ',' then (comma, cs)
  else if c = ':' then (colon, cs)
  else if c = '"' then
    let (leaf, rest) := lexString cs
    (string leaf, rest)
  else if c = '-' ∨ c.isDigit then
    let (leaf, rest) := Numeral.lex (c :: cs)
    (number leaf, rest)
  else if c = 'n' then lexWord "null" null (c :: cs)
  else if c = 't' then lexWord "true" (boolean true) (c :: cs)
  else if c = 'f' then lexWord "false" (boolean false) (c :: cs)
  else (broken .malformed, [])

def lexWithin : Nat → List Char → List Token
  | 0, _ => []
  | count + 1, cs =>
    match cs.dropWhile isSpace with
    | [] => []
    | c :: rest =>
      let (token, rest) := lexOne c rest
      token :: lexWithin count rest

/-- The tokens of a text, up to the first fault. Each of them takes a character at least. -/
def lex (cs : List Char) : List Token := lexWithin cs.length cs

end Token

end TensorEval.Json
