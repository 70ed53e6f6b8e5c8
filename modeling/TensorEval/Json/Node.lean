import TensorEval.Json.Token
/-!
The tree of a JSON text as far as the text goes. A fault is a leaf of the tree at the place where
it stands, so whoever walks the tree from the left meets first what comes first in the text.
-/
namespace TensorEval.Json

mutual

/-- What stands where a JSON value is expected. -/
inductive Node where
  | null
  | boolean (value : Bool)
  | number (value : Leaf Number)
  | string (value : Leaf String)
  | array (items : Items)
  | object (members : Members)
  /-- Text that is no value. -/
  | broken (fault : Refusal)
  /-- The text ends instead. -/
  | missing

/-- The items of an array that are still to come. -/
inductive Items where
  | closed
  | item (value : Node) (rest : Items)
  /-- Neither a comma nor the closing bracket. -/
  | cut (fault : Refusal)

/-- The members of an object that are still to come. -/
inductive Members where
  | closed
  | member (name : Leaf String) (value : Node) (rest : Members)
  /-- Something else in the place of a name. -/
  | unnamed (instead : Node)
  /-- Neither a comma nor the closing bracket. -/
  | cut (fault : Refusal)

end

def punctuationFault (rest : List Token) : Refusal :=
  match rest with
  | [] => .truncated
  | _ => .malformed

mutual

/-- The value at the start of the tokens, and what follows it. `depth` bounds the calls. -/
def Node.parse : Nat → List Token → Node × List Token
  | 0, tokens => (.missing, tokens)
  | depth + 1, tokens =>
    match tokens with
    | [] => (.missing, [])
    | .null :: rest => (.null, rest)
    | .boolean b :: rest => (.boolean b, rest)
    | .number n :: rest => (.number n, rest)
    | .string s :: rest => (.string s, rest)
    | .broken fault :: rest => (.broken fault, rest)
    | .beginArray :: .endArray :: rest => (.array .closed, rest)
    | .beginArray :: rest =>
      let (items, rest) := Items.parse depth rest
      (.array items, rest)
    | .beginObject :: .endObject :: rest => (.object .closed, rest)
    | .beginObject :: rest =>
      let (members, rest) := Members.parse depth rest
      (.object members, rest)
    | rest => (.broken .malformed, rest)

def Items.parse : Nat → List Token → Items × List Token
  | 0, tokens => (.cut .truncated, tokens)
  | depth + 1, tokens =>
    match Node.parse depth tokens with
    | (value, .comma :: rest) =>
      let (items, rest) := Items.parse depth rest
      (.item value items, rest)
    | (value, .endArray :: rest) => (.item value .closed, rest)
    | (value, rest) => (.item value (.cut (punctuationFault rest)), rest)

def Members.parse : Nat → List Token → Members × List Token
  | 0, tokens => (.cut .truncated, tokens)
  | depth + 1, tokens =>
    match tokens with
    | .string name :: .colon :: rest =>
      match Node.parse depth rest with
      | (value, .comma :: rest) =>
        let (members, rest) := Members.parse depth rest
        (.member name value members, rest)
      | (value, .endObject :: rest) => (.member name value .closed, rest)
      | (value, rest) => (.member name value (.cut (punctuationFault rest)), rest)
    | [.string name] => (.member name .missing (.cut .truncated), [])
    | .string name :: rest => (.member name (.broken .malformed) (.cut .malformed), rest)
    | tokens =>
      let (value, rest) := Node.parse depth tokens
      (.unnamed value, rest)

end

/-- The tree at the start of a text, and whether more tokens follow it. Every call takes a token or
leads to one that does, so three calls for a token are enough. -/
def Node.ofText (cs : List Char) : Node × Bool :=
  let tokens := Token.lex cs
  let (node, rest) := Node.parse (3 * tokens.length + 1) tokens
  (node, !rest.isEmpty)

end TensorEval.Json
