import TensorEval.Json.Node
import TensorEval.Proofs.Json.Numeral
import TensorEval.Proofs.Json.Quoted

/-! The text of a JSON value in one line is read as the tree of that value: first its tokens are found, then the tree
is built from them. -/
namespace TensorEval.Json

mutual

def tokens : Json → List Token
  | null => [.null]
  | boolean b => [.boolean b]
  | integer n => [.number (Numeral.lex (Text.integer n)).1]
  | float x => if x.isFinite then [.number (Numeral.lex (floatText x)).1] else [.null]
  | string s => [.string (.whole s)]
  | array [] => [.beginArray, .endArray]
  | array (first :: rest) => .beginArray :: tokens first ++ itemTokens rest
  | object [] => [.beginObject, .endObject]
  | object ((name, first) :: rest) =>
    .beginObject :: .string (.whole name) :: .colon :: tokens first ++ memberTokens rest

def itemTokens : List Json → List Token
  | [] => [.endArray]
  | item :: rest => .comma :: tokens item ++ itemTokens rest

def memberTokens : List (String × Json) → List Token
  | [] => [.endObject]
  | (name, value) :: rest => .comma :: .string (.whole name) :: .colon :: tokens value ++ memberTokens rest

end

mutual

def node : Json → Node
  | null => .null
  | boolean b => .boolean b
  | integer n => .number (Numeral.lex (Text.integer n)).1
  | float x => if x.isFinite then .number (Numeral.lex (floatText x)).1 else .null
  | string s => .string (.whole s)
  | array items => .array (itemNodes items)
  | object members => .object (memberNodes members)

def itemNodes : List Json → Items
  | [] => .closed
  | item :: rest => .item (node item) (itemNodes rest)

def memberNodes : List (String × Json) → Members
  | [] => .closed
  | (name, value) :: rest => .member (.whole name) (node value) (memberNodes rest)

end

/-- Whether a text holds some tokens in front of `rest`, of at least one character each. -/
structure Spells (cs : List Char) (ts : List Token) (rest : List Char) : Prop where
  length_le : ts.length ≤ cs.length
  lexWithin_append : ∀ count, Token.lexWithin (ts.length + count) (cs ++ rest) = ts ++ Token.lexWithin count rest

namespace Spells
variable {cs cs' rest : List Char} {ts ts' : List Token}

theorem append (h : Spells cs ts (cs' ++ rest)) (h' : Spells cs' ts' rest) : Spells (cs ++ cs') (ts ++ ts') rest := by
  refine ⟨?_, fun count => ?_⟩
  · rw [List.length_append, List.length_append]
    exact Nat.add_le_add h.length_le h'.length_le
  · rw [List.length_append, Nat.add_assoc, List.append_assoc, h.lexWithin_append, h'.lexWithin_append,
      List.append_assoc]

/-- A single token. -/
theorem one {c : Char} {t : Token} (hspace : Token.isSpace c = false) (h : Token.lexOne c (cs ++ rest) = (t, rest)) :
    Spells (c :: cs) [t] rest := by
  refine ⟨by simp, fun count => ?_⟩
  rw [List.length_singleton, Nat.add_comm, List.cons_append, Token.lexWithin,
    List.dropWhile_cons_of_neg (by simp [hspace])]
  dsimp only
  rw [h]
  rfl

theorem cons {c : Char} {t : Token} (hspace : Token.isSpace c = false)
    (h : Token.lexOne c (cs ++ rest) = (t, cs ++ rest)) (htail : Spells cs ts rest) :
    Spells (c :: cs) (t :: ts) rest := by
  have hfirst : Spells [c] [t] (cs ++ rest) := one hspace h
  exact hfirst.append htail

private theorem pair {c c' : Char} {t t' : Token} (hspace : Token.isSpace c = false)
    (hspace' : Token.isSpace c' = false)
    (h : Token.lexOne c (c' :: rest) = (t, c' :: rest)) (h' : Token.lexOne c' rest = (t', rest)) :
    Spells [c, c'] [t, t'] rest :=
  cons hspace h (one hspace' h')

private theorem quoted (s : String) (rest : List Char) : Spells (Json.quoted s) [.string (.whole s)] rest := by
  change Spells ('"' :: (s.toList.flatMap escapedChar ++ ['"'])) _ rest
  have hquote (cs : List Char) : Token.lexOne '"' cs = (.string (Token.lexString cs).1, (Token.lexString cs).2) := rfl
  refine one rfl ?_
  rw [List.append_assoc, List.singleton_append, hquote, Token.lexString_quoted]

private theorem lexOne_numeral {c : Char} (h : c = '-' ∨ c.isDigit = true) (cs : List Char) :
    Token.isSpace c = false ∧
      Token.lexOne c cs = (.number (Numeral.lex (c :: cs)).1, (Numeral.lex (c :: cs)).2) := by
  have hne (d : Char) (hd : (d = '-' || d.isDigit) = false) : c ≠ d := by
    rintro rfl
    rcases h with h | h <;> simp [h] at hd
  constructor
  · simp [Token.isSpace, hne ' ' rfl, hne '\t' rfl, hne '\n' rfl, hne '\r' rfl]
  · simp [Token.lexOne, hne '\x7b' rfl, hne '\x7d' rfl, hne '[' rfl, hne ']' rfl, hne ',' rfl, hne ':' rfl,
      hne '"' rfl, h]

private theorem numeral {n : Numeral} (h : n.WellFormed) (hrest : Closes rest) :
    Spells n.text [.number (Numeral.lex n.text).1] rest := by
  have hlex := Numeral.lex_text h hrest
  obtain ⟨c, cs, hcs, hc⟩ := Numeral.exists_cons_text h
  rw [hcs] at hlex ⊢
  obtain ⟨hspace, hone⟩ := lexOne_numeral hc (cs ++ rest)
  refine one hspace ?_
  rw [List.cons_append] at hlex
  rw [hone, hlex]

/-- A member of an object and what follows it. -/
theorem member (name : String) (h : Spells cs ts (cs' ++ rest)) (h' : Spells cs' ts' rest) :
    Spells (Json.quoted name ++ ':' :: cs ++ cs') (.string (.whole name) :: .colon :: ts ++ ts') rest := by
  rw [List.append_assoc]
  exact (quoted name _).append (.cons rfl rfl (h.append h'))

end Spells

private theorem closes_compactItems (items : List Json) (rest : List Char) : Closes (compactItems items ++ rest) := by
  cases items with
  | nil => exact closes_cons _
  | cons item items => exact closes_cons _

private theorem closes_compactMembers (members : List (String × Json)) (rest : List Char) :
    Closes (compactMembers members ++ rest) := by
  cases members with
  | nil => exact closes_cons _
  | cons member members => exact closes_cons _

theorem spells_float (x : Double) {rest : List Char} (hrest : Closes rest) :
    Spells (floatText x) (tokens (.float x)) rest := by
  unfold floatText tokens
  split
  next hx =>
    obtain ⟨n, hn, htext⟩ := Numeral.exists_text_finite hx
    rw [floatText, if_pos hx, ← htext]
    exact .numeral hn hrest
  next => exact .one rfl rfl

mutual

/-- The text of a value holds its tokens. -/
theorem spells_compact : ∀ (value : Json) {rest : List Char}, Closes rest → Spells value.compact value.tokens rest
  | null, _, _ => .one rfl rfl
  | boolean true, _, _ => .one rfl rfl
  | boolean false, _, _ => .one rfl rfl
  | integer n, _, hrest => by
    have hnumeral := Spells.numeral (Numeral.wellFormed_ofInt n) hrest
    rwa [Numeral.text_ofInt] at hnumeral
  | float x, _, hrest => spells_float x hrest
  | string s, rest, _ => .quoted s rest
  | array [], _, _ => .pair rfl rfl rfl rfl
  | array (first :: items), rest, _ =>
    .cons rfl rfl ((spells_compact first (closes_compactItems items rest)).append (spells_compactItems items rest))
  | object [], _, _ => .pair rfl rfl rfl rfl
  | object ((name, first) :: members), rest, _ =>
    .cons rfl rfl
      (.member name (spells_compact first (closes_compactMembers members rest)) (spells_compactMembers members rest))

private theorem spells_compactItems : ∀ (items : List Json) (rest : List Char),
    Spells (compactItems items) (itemTokens items) rest
  | [], _ => .one rfl rfl
  | item :: items, rest =>
    .cons rfl rfl ((spells_compact item (closes_compactItems items rest)).append (spells_compactItems items rest))

private theorem spells_compactMembers : ∀ (members : List (String × Json)) (rest : List Char),
    Spells (compactMembers members) (memberTokens members) rest
  | [], _ => .one rfl rfl
  | (name, value) :: members, rest =>
    .cons rfl rfl
      (.member name (spells_compact value (closes_compactMembers members rest)) (spells_compactMembers members rest))

end

private theorem exists_cons_tokens (value : Json) : ∃ t ts, value.tokens = t :: ts ∧ t ≠ .endArray := by
  cases value with
  | null => exact ⟨_, _, rfl, nofun⟩
  | boolean b => exact ⟨_, _, rfl, nofun⟩
  | integer n => exact ⟨_, _, rfl, nofun⟩
  | float x =>
    unfold tokens
    split
    · exact ⟨_, _, rfl, nofun⟩
    · exact ⟨_, _, rfl, nofun⟩
  | string s => exact ⟨_, _, rfl, nofun⟩
  | array items => cases items <;> exact ⟨_, _, rfl, nofun⟩
  | object members => cases members <;> exact ⟨_, _, rfl, nofun⟩

section Parse
variable {depth : Nat} {ts rest : List Token}

private theorem Node.parse_beginArray {t : Token} (ht : t ≠ .endArray) :
    Node.parse (depth + 1) (.beginArray :: t :: ts) =
      (.array (Items.parse depth (t :: ts)).1, (Items.parse depth (t :: ts)).2) := by
  rw [Node.parse]
  simpa using ht

private theorem Node.parse_beginObject {name : Leaf String} :
    Node.parse (depth + 1) (.beginObject :: .string name :: ts) =
      (.object (Members.parse depth (.string name :: ts)).1, (Members.parse depth (.string name :: ts)).2) := by
  rw [Node.parse]
  simp

private theorem Items.parse_comma {value : Node} (h : Node.parse depth ts = (value, .comma :: rest)) :
    Items.parse (depth + 1) ts = (.item value (Items.parse depth rest).1, (Items.parse depth rest).2) := by
  rw [Items.parse, h]

private theorem Items.parse_endArray {value : Node} (h : Node.parse depth ts = (value, .endArray :: rest)) :
    Items.parse (depth + 1) ts = (.item value .closed, rest) := by
  rw [Items.parse, h]

private theorem Members.parse_comma {name : Leaf String} {value : Node}
    (h : Node.parse depth ts = (value, .comma :: rest)) :
    Members.parse (depth + 1) (.string name :: .colon :: ts) =
      (.member name value (Members.parse depth rest).1, (Members.parse depth rest).2) := by
  rw [Members.parse, h]

private theorem Members.parse_endObject {name : Leaf String} {value : Node}
    (h : Node.parse depth ts = (value, .endObject :: rest)) :
    Members.parse (depth + 1) (.string name :: .colon :: ts) = (.member name value .closed, rest) := by
  rw [Members.parse, h]

end Parse

mutual

/-- The tokens of a value give its tree, where two calls are left for each token. -/
theorem parse_tokens : ∀ (value : Json) (depth : Nat) (rest : List Token), 2 * value.tokens.length ≤ depth + 1 →
    Node.parse depth (value.tokens ++ rest) = (value.node, rest)
  | value, 0, _, h => by
    obtain ⟨t, ts, hts, -⟩ := exists_cons_tokens value
    rw [hts, List.length_cons] at h
    omega
  | null, _ + 1, _, _ => rfl
  | boolean _, _ + 1, _, _ => rfl
  | integer _, _ + 1, _, _ => rfl
  | float x, _ + 1, _, _ => by
    unfold tokens node
    split <;> rfl
  | string _, _ + 1, _, _ => rfl
  | array [], _ + 1, _, _ => rfl
  | array (first :: items), depth + 1, rest, h => by
    simp only [tokens, List.cons_append, List.length_cons, List.length_append] at h
    have hitems := parse_items first items depth rest (by omega)
    obtain ⟨t, ts, hts, ht⟩ := exists_cons_tokens first
    simp only [tokens, List.cons_append, List.append_assoc]
    rw [hts] at hitems ⊢
    rw [List.cons_append, Node.parse_beginArray ht, ← List.cons_append, hitems]
    rfl
  | object [], _ + 1, _, _ => rfl
  | object ((name, first) :: members), depth + 1, rest, h => by
    simp only [tokens, List.cons_append, List.length_cons, List.length_append] at h
    have hmembers := parse_members name first members depth rest (by omega)
    simp only [tokens, List.cons_append, List.append_assoc]
    rw [Node.parse_beginObject, hmembers]
    rfl

private theorem parse_items : ∀ (first : Json) (items : List Json) (depth : Nat) (rest : List Token),
    2 * (first.tokens.length + (itemTokens items).length) ≤ depth →
      Items.parse depth (first.tokens ++ (itemTokens items ++ rest)) = (itemNodes (first :: items), rest)
  | first, items, 0, _, h => by
    obtain ⟨t, ts, hts, -⟩ := exists_cons_tokens first
    rw [hts, List.length_cons] at h
    omega
  | first, [], depth + 1, rest, h => by
    rw [itemTokens, List.length_singleton] at h
    exact Items.parse_endArray (parse_tokens first depth (.endArray :: rest) (by omega))
  | first, item :: items, depth + 1, rest, h => by
    simp only [itemTokens, List.cons_append, List.length_cons, List.length_append] at h
    have hfirst := parse_tokens first depth (.comma :: (item.tokens ++ (itemTokens items ++ rest))) (by omega)
    have hitems := parse_items item items depth rest (by omega)
    simp only [itemTokens, List.cons_append, List.append_assoc]
    rw [Items.parse_comma hfirst, hitems]
    rfl

private theorem parse_members : ∀ (name : String) (first : Json) (members : List (String × Json)) (depth : Nat)
    (rest : List Token), 2 * (first.tokens.length + (memberTokens members).length + 1) ≤ depth →
      Members.parse depth (.string (.whole name) :: .colon :: (first.tokens ++ (memberTokens members ++ rest))) =
        (memberNodes ((name, first) :: members), rest)
  | name, first, members, 0, _, h => by omega
  | name, first, [], depth + 1, rest, h => by
    rw [memberTokens, List.length_singleton] at h
    exact Members.parse_endObject (parse_tokens first depth (.endObject :: rest) (by omega))
  | name, first, (name', value) :: members, depth + 1, rest, h => by
    simp only [memberTokens, List.cons_append, List.length_cons, List.length_append] at h
    have hfirst := parse_tokens first depth
      (.comma :: .string (.whole name') :: .colon :: (value.tokens ++ (memberTokens members ++ rest))) (by omega)
    have hmembers := parse_members name' value members depth rest (by omega)
    simp only [memberTokens, List.cons_append, List.append_assoc]
    rw [Members.parse_comma hfirst, hmembers]
    rfl

end

/-- A text of the tokens of a value is read as the tree of the value, and nothing is left over. -/
theorem ofText_of_spells {cs : List Char} {value : Json} (h : Spells cs value.tokens []) :
    Node.ofText cs = (value.node, false) := by
  have hlex : Token.lex cs = value.tokens := by
    obtain ⟨count, hcount⟩ := Nat.exists_eq_add_of_le h.length_le
    have hall := h.lexWithin_append count
    rw [List.append_nil] at hall
    rw [Token.lex, hcount, hall]
    cases count <;> simp [Token.lexWithin]
  have hparse := parse_tokens value (3 * value.tokens.length + 1) [] (by omega)
  rw [List.append_nil] at hparse
  simp only [Node.ofText, hlex, hparse]
  rfl

theorem ofText_compact (value : Json) : Node.ofText value.compact = (value.node, false) :=
  ofText_of_spells (spells_compact value closes_nil)

end TensorEval.Json
