import TensorEval.Proofs.Case.Canonical
import TensorEval.Proofs.Json.Range
import TensorEval.Proofs.Json.Reader

/-! Writing a case that was read and reading it again gives its canonical form. -/
namespace TensorEval

open Json (ReadsBack Yields Node)

/-- Whether an input is as inputs that were read: dimensions are words and numbers finite. -/
structure Input.Readable (input : Input) : Prop where
  shape : ∀ d ∈ input.shape, d < wordBound
  values : ∀ xs ∈ input.values, ∀ x ∈ xs, x.isFinite = true

def Attribute.Readable (a : Attribute) : Prop := ∃ s, ofString s = .ok a

def Operation.Readable (op : Operation) : Prop := ∀ e ∈ op.attributes.entries, e.2.Readable

structure Case.Readable (c : Case) : Prop where
  inputs : ∀ e ∈ c.inputs.entries, e.2.Readable
  operations : ∀ op ∈ c.operations, op.Readable

section Yields

private theorem Attribute.yields_readNode : Yields Attribute.Readable readNode := by
  intro node _ a h
  obtain ⟨s, -, h⟩ := except_bind_eq_ok.mp h
  split at h
  next value hvalue =>
    obtain rfl := Except.ok.inj h
    exact ⟨s, hvalue⟩
  next => exact nomatch h

structure Input.Parts.Readable (parts : Input.Parts) : Prop where
  shape : ∀ d ∈ parts.shape.getD [], d < wordBound
  values : ∀ xs ∈ parts.values.join, ∀ x ∈ xs, x.isFinite = true

private theorem Input.yields_read : Yields Input.Readable read := by
  have hfields : ∀ field ∈ fields, field.Keeps Parts.Readable := by
    simp only [fields, List.forall_mem_cons]
    refine ⟨?_, ?_, ?_, ?_, List.forall_mem_nil _⟩
    · exact .of_yields (.any _) fun _ _ _ hs => ⟨hs.shape, hs.values⟩
    · exact .of_yields (.readList .readWord) fun _ _ hshape hs => ⟨hshape, hs.values⟩
    · exact .of_yields (.readOptional (.readList .readDouble)) fun _ _ hvalues hs => ⟨hs.shape, hvalues⟩
    · exact .of_yields (.any _) fun _ _ _ hs => ⟨hs.shape, hs.values⟩
  have hblank : Parts.Readable ⟨none, none, none, none⟩ :=
    ⟨fun _ h => absurd h List.not_mem_nil, fun _ h => nomatch h⟩
  intro node hnode input h
  obtain ⟨parts, hparts, h⟩ := except_bind_eq_ok.mp h
  have hreadable := Yields.readRecord hfields hblank node hnode parts hparts
  split at h
  next =>
    obtain rfl := Except.ok.inj h
    exact ⟨hreadable.shape, hreadable.values⟩
  next => exact nomatch h

private theorem Operation.yields_read : Yields Operation.Readable read := by
  have hfields : ∀ field ∈ fields, field.Keeps
      fun parts : Parts => ∀ e ∈ (parts.attributes.getD .empty).entries, e.2.Readable := by
    simp only [fields, List.forall_mem_cons]
    refine ⟨?_, ?_, ?_, ?_, ?_, List.forall_mem_nil _⟩
    · exact .of_yields (.any _) fun _ _ _ hs => hs
    · exact .of_yields (.any _) fun _ _ _ hs => hs
    · exact .of_yields (.any _) fun _ _ _ hs => hs
    · exact .of_yields (.readTable Attribute.yields_readNode) fun _ _ hattributes _ => hattributes
    · exact .of_yields (.any _) fun _ _ _ hs => hs
  intro node hnode op h
  obtain ⟨parts, hparts, h⟩ := except_bind_eq_ok.mp h
  have hreadable := Yields.readRecord hfields (fun _ h => absurd h List.not_mem_nil) node hnode parts hparts
  split at h
  next =>
    obtain rfl := Except.ok.inj h
    exact hreadable
  next => exact nomatch h

structure Case.Parts.Readable (parts : Case.Parts) : Prop where
  inputs : ∀ e ∈ (parts.inputs.getD .empty).entries, e.2.Readable
  operations : ∀ op ∈ parts.operations.getD [], op.Readable

private theorem Case.yields_read : Yields Case.Readable read := by
  have hfields : ∀ field ∈ fields, field.Keeps Parts.Readable := by
    simp only [fields, List.forall_mem_cons]
    refine ⟨?_, ?_, ?_, List.forall_mem_nil _⟩
    · exact .of_yields (.readTable Input.yields_read) fun _ _ hinputs hs => ⟨hinputs, hs.operations⟩
    · exact .of_yields (.readList Operation.yields_read) fun _ _ hoperations hs => ⟨hs.inputs, hoperations⟩
    · exact .of_yields (.any _) fun _ _ _ hs => ⟨hs.inputs, hs.operations⟩
  have hblank : Parts.Readable ⟨none, none, none⟩ :=
    ⟨fun _ h => absurd h List.not_mem_nil, fun _ h => absurd h List.not_mem_nil⟩
  intro node hnode c h
  obtain ⟨parts, hparts, h⟩ := except_bind_eq_ok.mp h
  obtain rfl := Except.ok.inj h
  have hreadable := Yields.readRecord hfields hblank node hnode parts hparts
  exact ⟨hreadable.inputs, hreadable.operations⟩

/-- A case that was read is readable. -/
theorem Case.readable_of_ofText {text : String} {c : Case} (h : ofText text = .ok c) : c.Readable :=
  Case.yields_read _ (Json.inRange_ofText text.toList) c (Json.readText_eq_ok.mp h).1

end Yields

section Read

theorem ElementType.read_node (type : ElementType) : read (Json.string type.name).node = .ok type := by
  change Node.readName.choose ofName? type.name = .ok type
  rw [Node.readName.choose, ofName?_name]

private theorem readBytes_node (bytes : List UInt8) :
    readBytes (Json.string (String.ofList (Text.Base64.encode bytes))).node = .ok bytes := by
  rw [readBytes, Json.readString_node, except_ok_bind, String.toList_ofList, Text.Base64.decode_encode]
  rfl

private theorem Attribute.readNode_node {a : Attribute} (h : a.Readable) :
    readNode (Json.string a.toString).node = .ok a.canonical := by
  obtain ⟨s, hs⟩ := h
  have htext : ofString a.toString = .ok a.canonical := by
    rw [ofString, toString, String.toList_ofList]
    exact (read_text hs).1
  rw [readNode, Json.readString_node, except_ok_bind, htext]
  rfl

private theorem readNames_node (names : List String) :
    Node.readList Node.readString (namesJson names).node = .ok names :=
  Json.readList_node_self fun _ _ => rfl

theorem readShape_node {shape : Shape} (h : ∀ d ∈ shape, d < wordBound) :
    Node.readList Node.readWord (Shape.json shape).node = .ok shape :=
  Json.readList_node_self fun d hd => Json.readWord_node (h d hd)

private theorem readValues_node {values : List Double} (h : ∀ x ∈ values, x.isFinite = true)
    (hback : ∀ x ∈ values, ReadsBack x) :
    Node.readList Node.readDouble (Json.array (values.map .float)).node = .ok values :=
  Json.readList_node_self fun x hx => Json.readDouble_node (h x hx) (hback x hx)

/-- An input that can be read is read from what is written for it. -/
theorem Input.read_node {input : Input} (h : input.Readable) (hback : ∀ xs ∈ input.values, ∀ x ∈ xs, ReadsBack x) :
    read input.json.node = .ok input := by
  obtain ⟨type, shape, values, data⟩ := input
  obtain ⟨hshape, hvalues⟩ := h
  have hdata (s : Parts) (hs : s.data = none) (bytes : List UInt8) :
      (Json.memberNodes [("data", .string (String.ofList (Text.Base64.encode bytes)))]).readFields fields s =
        .ok { s with data := some (some bytes) } := by
    refine (Json.readFields_keep rfl hs (Json.readOptional_node (by exact nofun) (readBytes_node bytes)) []).trans ?_
    rfl
  have hfields : (json ⟨type, shape, values, data⟩).node.readRecord fields ⟨none, none, none, none⟩ =
      .ok ⟨some type, some shape, values.map some, data.map some⟩ := by
    change (Json.memberNodes _).readFields fields _ = _
    refine (Json.readFields_keep rfl rfl (ElementType.read_node type) _).trans ?_
    refine (Json.readFields_keep rfl rfl (readShape_node hshape) _).trans ?_
    cases values with
    | none =>
      cases data with
      | none => rfl
      | some bytes => exact hdata _ rfl bytes
    | some xs =>
      have hread := readValues_node (hvalues xs rfl) (hback xs rfl)
      refine (Json.readFields_keep rfl rfl (Json.readOptional_node (by exact nofun) hread) _).trans ?_
      cases data with
      | none => rfl
      | some bytes => exact hdata _ rfl bytes
  rw [read, hfields]
  cases values <;> cases data <;> rfl

/-- An operation that can be read is read in its canonical form. -/
theorem Operation.read_node {op : Operation} (h : op.Readable) : read op.json.node = .ok op.canonical := by
  obtain ⟨kind, operands, results, attributes, label⟩ := op
  have hattributes : Node.readTable Attribute.readNode (attributes.json fun value => .string value.toString).node =
      .ok (attributes.map Attribute.canonical) :=
    Json.readTable_node fun e he => Attribute.readNode_node (h e he)
  have hfields : (json ⟨kind, operands, results, attributes, label⟩).node.readRecord fields
      ⟨none, none, none, none, none⟩ =
        .ok ⟨some kind, some operands, some results, some (attributes.map Attribute.canonical), some label⟩ := by
    change (Json.memberNodes _).readFields fields _ = _
    refine (Json.readFields_keep rfl rfl (Json.readString_node kind) _).trans ?_
    refine (Json.readFields_keep rfl rfl (readNames_node operands) _).trans ?_
    refine (Json.readFields_keep rfl rfl (readNames_node results) _).trans ?_
    refine (Json.readFields_keep rfl rfl hattributes _).trans ?_
    cases label with
    | none =>
      have hnull : Node.readOptional Node.readString (Json.node .null) = .ok none := rfl
      refine (Json.readFields_keep rfl rfl hnull []).trans ?_
      rfl
    | some label =>
      have hlabel : Node.readOptional Node.readString (Json.string label).node = .ok (some label) := rfl
      refine (Json.readFields_keep rfl rfl hlabel []).trans ?_
      rfl
  rw [read, hfields]
  rfl

/-- The numbers that a case lists for its inputs are read back as they are. -/
def Case.ReadsBack (c : Case) : Prop :=
  ∀ e ∈ c.inputs.entries, ∀ xs ∈ e.2.values, ∀ x ∈ xs, Json.ReadsBack x

instance (c : Case) : Decidable c.ReadsBack :=
  inferInstanceAs (Decidable (∀ e ∈ c.inputs.entries, ∀ xs ∈ e.2.values, ∀ x ∈ xs, Json.ReadsBack x))

/-- A case that can be read is read in its canonical form. -/
theorem Case.read_node {c : Case} (h : c.Readable) (hback : c.ReadsBack) : read c.json.node = .ok c.canonical := by
  obtain ⟨inputs, operations, outputs⟩ := c
  have hinputs : Node.readTable Input.read (inputs.json Input.json).node = .ok inputs := by
    have hread := Json.readTable_node (f := id) fun e he => Input.read_node (h.inputs e he) (hback e he)
    rwa [Bindings.map_id] at hread
  have hoperations : Node.readList Operation.read (Json.array (operations.map Operation.json)).node =
      .ok (operations.map Operation.canonical) :=
    Json.readList_node fun op hop => Operation.read_node (h.operations op hop)
  have hfields : (json ⟨inputs, operations, outputs⟩).node.readRecord fields ⟨none, none, none⟩ =
      .ok ⟨some inputs, some (operations.map Operation.canonical), some outputs⟩ := by
    change (Json.memberNodes _).readFields fields _ = _
    refine (Json.readFields_keep rfl rfl hinputs _).trans ?_
    refine (Json.readFields_keep rfl rfl hoperations _).trans ?_
    refine (Json.readFields_keep rfl rfl (readNames_node outputs) []).trans ?_
    rfl
  rw [read, hfields]
  rfl

end Read

/-- What is written for a case that was read is read in its canonical form. -/
theorem Case.ofText_toText {text : String} {c : Case} (h : ofText text = .ok c) (hback : c.ReadsBack) :
    ofText c.toText = .ok c.canonical := by
  have htree : Node.ofText c.toText.toList = (c.json.node, false) := by
    rw [toText, Json.toCompact, String.toList_ofList, Json.ofText_compact]
  rw [ofText, Json.readText_eq_ok, htree]
  exact ⟨Case.read_node (Case.readable_of_ofText h) hback, rfl⟩

/-- Writing a case that was read and reading it again keeps its text and its meaning: the second case is written in the
same way, is checked with the same result, and has the same run under every evaluator. -/
theorem Case.reload_of_readsBack {text : String} {c : Case} (h : ofText text = .ok c) (hback : c.ReadsBack) :
    ∃ c', ofText c.toText = .ok c' ∧ c'.toText = c.toText ∧
      (∀ registry, c'.validate registry = c.validate registry) ∧ ∀ e : Evaluator, e.run c' = e.run c :=
  ⟨c.canonical, Case.ofText_toText h hback, c.toText_canonical, fun registry => Case.validate_canonical registry c,
    fun e => e.run_canonical c⟩

/-- A case written as an array of its fields, with a number between two doubles and a truth value given as seven. -/
def Case.terseText : String :=
  "[\x7b\"x\":[\"index\",[1],[-0.1]]\x7d,[[\"arith.constant\",[],[\"t\"],\x7b\"value\":\"7:i1\"\x7d]],[\"t\"]]"

/-- The text that the case of `terseText` is written as. -/
def Case.plainText : String :=
  "\x7b\"inputs\":\x7b\"x\":\x7b\"data_type\":\"i64\",\"shape\":[1],\"values\":[-0.1]\x7d\x7d," ++
  "\"operations\":[\x7b\"name\":\"arith.constant\",\"operands\":[],\"results\":[\"t\"]," ++
  "\"attributes\":\x7b\"value\":\"true\"\x7d,\"label\":null\x7d],\"outputs\":[\"t\"]\x7d"

theorem Case.reload_terseText : ∃ c, ofText terseText = .ok c ∧ c.toText = plainText ∧ c.ReadsBack ∧
    ∃ c', ofText c.toText = .ok c' ∧ c'.toText = c.toText ∧
      (∀ registry, c'.validate registry = c.validate registry) ∧ ∀ e : Evaluator, e.run c' = e.run c := by
  have hread : (ofText terseText).toOption.any (fun c => c.toText = plainText ∧ c.ReadsBack) = true := by
    decide +kernel
  cases h : ofText terseText with
  | error refusal =>
    rw [h] at hread
    exact nomatch hread
  | ok c =>
    rw [h] at hread
    obtain ⟨htext, hback⟩ := of_decide_eq_true hread
    exact ⟨c, rfl, htext, hback, Case.reload_of_readsBack h hback⟩

end TensorEval
