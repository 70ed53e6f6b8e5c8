import TensorEval.Bindings
import TensorEval.Json.Node
/-!
Reading typed values from the tree of a JSON text. A reader works from the left and answers with
the first problem that it meets.
-/
namespace TensorEval.Json

abbrev Reader (α : Type) := Node → Except Refusal α

mutual

def Node.skip : Node → Except Refusal Unit
  | .null | .boolean _ => .ok ()
  | .number n => n.skip
  | .string s => s.skip
  | .array items => items.skip
  | .object members => members.skip
  | .broken fault => .error fault
  | .missing => .error .truncated

def Items.skip : Items → Except Refusal Unit
  | .closed => .ok ()
  | .item value rest => do
    value.skip
    rest.skip
  | .cut fault => .error fault

def Members.skip : Members → Except Refusal Unit
  | .closed => .ok ()
  | .member name value rest => do
    name.skip
    value.skip
    rest.skip
  | .unnamed .missing => .error .truncated
  | .unnamed _ => .error .malformed
  | .cut fault => .error fault

end

namespace Node

/-- The refusal of a reader that wants a value of another form. -/
def refuse : Node → Refusal
  | null | boolean _ | array _ | object _ => .unexpected
  | number n => n.refuse
  | string s => s.refuse
  | broken fault => fault
  | missing => .truncated

def readString : Reader String
  | string s => s.read
  | node => .error node.refuse

def readDouble : Reader Double
  | number n => n.read.map Number.toDouble
  | node => .error node.refuse

/-- An integer that is not negative, without point or exponent. -/
def readWord : Reader Nat
  | number n => do
    match ← n.read with
    | .unsigned n => return n
    | _ => throw .unexpected
  | node => .error node.refuse

def readNull : Reader Unit
  | null => .ok ()
  | node => .error node.refuse

def readOptional {α : Type} (r : Reader α) : Reader (Option α)
  | null => .ok none
  | node => (r node).map some

end Node

def Items.read {α : Type} (r : Reader α) : Items → Except Refusal (List α)
  | closed => .ok []
  | item value rest => do
    let first ← r value
    let others ← rest.read r
    return first :: others
  | cut fault => .error fault

def Node.readList {α : Type} (r : Reader α) : Reader (List α)
  | array items => items.read r
  | node => .error node.refuse

def unnamedFault : Node → Refusal
  | .missing => .truncated
  | _ => .malformed

/-- The members of an object that are added to a table. Of two members of one name the later one
stays. -/
def Members.readInto {α : Type} (r : Reader α) (table : Bindings α) :
    Members → Except Refusal (Bindings α)
  | closed => .ok table
  | member name value rest => do
    let name ← name.read
    let value ← r value
    rest.readInto r (table.insert name value)
  | unnamed instead => .error (unnamedFault instead)
  | cut fault => .error fault

def Node.readTable {α : Type} (r : Reader α) : Reader (Bindings α)
  | object members => members.readInto r .empty
  | node => .error node.refuse

/-- A field of a record that is read member by member into a value of type `σ`. -/
structure RecordField (σ : Type) where
  name : String
  /-- Whether the field has been read. -/
  isRead : σ → Bool
  /-- Reading the field. -/
  read : Node → σ → Except Refusal σ

/-- The members of an object as fields of a record. No field stands twice, and members that are no
fields are passed over. -/
def Members.readFields {σ : Type} (fields : List (RecordField σ)) (state : σ) :
    Members → Except Refusal σ
  | closed => .ok state
  | member name value rest => do
    let name ← name.read
    match fields.find? (·.name = name) with
    | some field =>
      if field.isRead state then throw .unexpected
      let state ← field.read value state
      rest.readFields fields state
    | none =>
      value.skip
      rest.readFields fields state
  | unnamed instead => .error (unnamedFault instead)
  | cut fault => .error fault

/-- The items of an array as the fields of a record in their order. The last ones can be left out,
and no more can follow. -/
def Items.readFields {σ : Type} (fields : List (RecordField σ)) (state : σ) :
    Items → Except Refusal σ
  | closed => .ok state
  | item value rest =>
    match fields with
    | [] => .error .malformed
    | field :: fields => do
      let state ← field.read value state
      rest.readFields fields state
  | cut fault => .error fault

/-- A record: an object, or an array of the fields in order. -/
def Node.readRecord {σ : Type} (fields : List (RecordField σ)) (blank : σ) : Reader σ
  | array items => items.readFields fields blank
  | object members => members.readFields fields blank
  | node => .error node.refuse

/-- One of some names: the string, or an object of the name alone with the value `null`. -/
def Node.readName {α : Type} (named : String → Option α) : Reader α
  | string s => do choose (← s.read)
  | object (.member name value rest) => do
    let choice ← choose (← name.read)
    value.readNull
    match rest with
    | .closed => return choice
    | .cut fault => throw fault
    | _ => throw .malformed
  | object .closed => .error .malformed
  | object (.unnamed instead) => .error (unnamedFault instead)
  | object (.cut fault) => .error fault
  | missing => .error .truncated
  | _ => .error .malformed
where
  /-- The value of a name. -/
  choose (name : String) : Except Refusal α :=
    match named name with
    | some choice => .ok choice
    | none => .error .unexpected

/-- The value that a whole text holds. Nothing but blanks can follow it. -/
def readText {α : Type} (r : Reader α) (text : String) : Except Refusal α := do
  let (node, more) := Node.ofText text.toList
  let value ← r node
  if more then throw .malformed
  return value

end TensorEval.Json
