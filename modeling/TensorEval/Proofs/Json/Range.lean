import TensorEval.Case.Reader
import TensorEval.Proofs.Json.Number

/-! Every number in the tree of a JSON text is in range, and what readers of that tree can rely on for it. -/
namespace TensorEval.Json

def Leaf.InRange : Leaf Number → Prop
  | .whole n => n.InRange
  | _ => True

def Token.InRange : Token → Prop
  | .number n => n.InRange
  | _ => True

mutual

def Node.InRange : Node → Prop
  | .number n => n.InRange
  | .array items => items.InRange
  | .object members => members.InRange
  | _ => True

def Items.InRange : Items → Prop
  | .item value rest => value.InRange ∧ rest.InRange
  | _ => True

def Members.InRange : Members → Prop
  | .member _ value rest => value.InRange ∧ rest.InRange
  | _ => True

end

namespace Token

private theorem inRange_numeral (cs : List Char) : (number (Numeral.lex cs).1).InRange := by
  change (Numeral.lex cs).1.InRange
  cases h : (Numeral.lex cs).1 with
  | whole n => exact Numeral.inRange_lex (Prod.ext h rfl)
  | unreadable => trivial
  | broken => trivial

private theorem inRange_lexWord {t : Token} (h : t.InRange) (word : String) (cs : List Char) :
    (lexWord word t cs).1.InRange := by
  unfold lexWord
  split
  · exact h
  · trivial

private theorem inRange_ite {p : Prop} [Decidable p] {x y : Token × List Char} (hx : x.1.InRange) (hy : y.1.InRange) :
    (if p then x else y).1.InRange := by
  split
  · exact hx
  · exact hy

private theorem inRange_lexOne (c : Char) (cs : List Char) : (lexOne c cs).1.InRange := by
  unfold lexOne
  -- Punctuation and strings, then numbers, then words.
  iterate 7
    refine inRange_ite trivial ?_
  refine inRange_ite (inRange_numeral (c :: cs)) ?_
  iterate 3
    refine inRange_ite (inRange_lexWord ?_ _ _) ?_
    · trivial
  trivial

theorem inRange_lexWithin (count : Nat) (cs : List Char) : ∀ t ∈ lexWithin count cs, t.InRange := by
  induction count generalizing cs with
  | zero => exact fun _ h => absurd h List.not_mem_nil
  | succ count ih =>
    rw [lexWithin]
    split
    next => exact fun _ h => absurd h List.not_mem_nil
    next c rest _ =>
      intro t ht
      rcases List.mem_cons.mp ht with rfl | ht
      · exact inRange_lexOne c rest
      · exact ih _ t ht

end Token

def AllInRange (ts : List Token) : Prop := ∀ t ∈ ts, t.InRange

private theorem AllInRange.tail {t : Token} {ts : List Token} (h : AllInRange (t :: ts)) : AllInRange ts :=
  fun x hx => h x (List.mem_cons_of_mem t hx)

private theorem AllInRange.head {t : Token} {ts : List Token} (h : AllInRange (t :: ts)) : t.InRange :=
  h t List.mem_cons_self

/-- Whether a parser keeps numbers in range, those that it takes and those that it leaves. -/
def Keeps {β : Type} (inRange : β → Prop) (parse : List Token → β × List Token) : Prop :=
  ∀ ts, AllInRange ts → inRange (parse ts).1 ∧ AllInRange (parse ts).2

section Step
variable {depth : Nat}

theorem Node.keeps_parse (hitems : Keeps Items.InRange (Items.parse depth))
    (hmembers : Keeps Members.InRange (Members.parse depth)) : Keeps Node.InRange (Node.parse (depth + 1)) := by
  intro ts h
  unfold Node.parse
  -- The forms of the first tokens in the order of the parser. Only a number and what an array or an object holds matter.
  split
  · exact ⟨trivial, h⟩
  · exact ⟨trivial, h.tail⟩
  · exact ⟨trivial, h.tail⟩
  · exact ⟨h.head, h.tail⟩
  · exact ⟨trivial, h.tail⟩
  · exact ⟨trivial, h.tail⟩
  · exact ⟨trivial, h.tail.tail⟩
  · exact hitems _ h.tail
  · exact ⟨trivial, h.tail.tail⟩
  · exact hmembers _ h.tail
  · exact ⟨trivial, h⟩

theorem Items.keeps_parse (hnode : Keeps Node.InRange (Node.parse depth))
    (hitems : Keeps Items.InRange (Items.parse depth)) : Keeps Items.InRange (Items.parse (depth + 1)) := by
  intro ts h
  have hfirst := hnode ts h
  unfold Items.parse
  split
  next heq =>
    rw [heq] at hfirst
    have hrest := hitems _ hfirst.2.tail
    exact ⟨⟨hfirst.1, hrest.1⟩, hrest.2⟩
  next heq =>
    rw [heq] at hfirst
    exact ⟨⟨hfirst.1, trivial⟩, hfirst.2.tail⟩
  next heq =>
    rw [heq] at hfirst
    exact ⟨⟨hfirst.1, trivial⟩, hfirst.2⟩

theorem Members.keeps_parse (hnode : Keeps Node.InRange (Node.parse depth))
    (hmembers : Keeps Members.InRange (Members.parse depth)) : Keeps Members.InRange (Members.parse (depth + 1)) := by
  intro ts h
  unfold Members.parse
  split
  next rest =>
    have hfirst := hnode rest h.tail.tail
    split
    next heq =>
      rw [heq] at hfirst
      have hrest := hmembers _ hfirst.2.tail
      exact ⟨⟨hfirst.1, hrest.1⟩, hrest.2⟩
    next heq =>
      rw [heq] at hfirst
      exact ⟨⟨hfirst.1, trivial⟩, hfirst.2.tail⟩
    next heq =>
      rw [heq] at hfirst
      exact ⟨⟨hfirst.1, trivial⟩, hfirst.2⟩
  next => exact ⟨⟨trivial, trivial⟩, h.tail⟩
  next => exact ⟨⟨trivial, trivial⟩, h.tail⟩
  next => exact ⟨trivial, (hnode ts h).2⟩

end Step

theorem keeps_parse (depth : Nat) : Keeps Node.InRange (Node.parse depth) ∧ Keeps Items.InRange (Items.parse depth) ∧
    Keeps Members.InRange (Members.parse depth) := by
  induction depth with
  | zero => exact ⟨fun _ h => ⟨trivial, h⟩, fun _ h => ⟨trivial, h⟩, fun _ h => ⟨trivial, h⟩⟩
  | succ depth ih =>
    obtain ⟨hnode, hitems, hmembers⟩ := ih
    exact ⟨Node.keeps_parse hitems hmembers, Items.keeps_parse hnode hitems, Members.keeps_parse hnode hmembers⟩

/-- All numbers in the tree of a text are in range. -/
theorem inRange_ofText (cs : List Char) : (Node.ofText cs).1.InRange := by
  have htokens : AllInRange (Token.lex cs) := Token.inRange_lexWithin _ cs
  exact ((keeps_parse (3 * (Token.lex cs).length + 1)).1 _ htokens).1

/-- Whether a reader gives values of a property only, on trees with all numbers in range. -/
def Yields {α : Type} (P : α → Prop) (r : Reader α) : Prop := ∀ node, node.InRange → ∀ a, r node = .ok a → P a

def RecordField.Keeps {σ : Type} (Q : σ → Prop) (field : RecordField σ) : Prop :=
  ∀ node, node.InRange → ∀ s, Q s → ∀ s', field.read node s = .ok s' → Q s'

theorem RecordField.Keeps.of_yields {α σ : Type} {P : α → Prop} {Q : σ → Prop} {r : Reader α} {name : String}
    {get : σ → Option α} {set : α → σ → σ} (h : Yields P r) (hset : ∀ a s, P a → Q s → Q (set a s)) :
    Keeps Q (.keep name get set r) := by
  intro node hnode s hs s' hread
  obtain ⟨a, ha, rfl⟩ := except_map_eq_ok.mp hread
  exact hset a s (h node hnode a ha) hs

namespace Yields
variable {α σ : Type} {P : α → Prop} {r : Reader α}

theorem any (r : Reader α) : Yields (fun _ => True) r := fun _ _ _ _ => trivial

theorem readWord : Yields (· < wordBound) Node.readWord := by
  intro node hnode n h
  cases node with
  | number value =>
    cases value with
    | whole value =>
      cases value with
      | unsigned m =>
        obtain rfl := Except.ok.inj h
        exact hnode
      | negative m => exact nomatch h
      | float x => exact nomatch h
    | unreadable => exact nomatch h
    | broken => exact nomatch h
  | null | boolean _ | string _ | array _ | object _ | broken _ | missing => exact nomatch h

theorem readDouble : Yields (fun x => x.isFinite = true) Node.readDouble := by
  intro node hnode x h
  cases node with
  | number value =>
    cases value with
    | whole value =>
      obtain rfl := Except.ok.inj h
      exact Number.isFinite_toDouble hnode
    | unreadable => exact nomatch h
    | broken => exact nomatch h
  | null | boolean _ | string _ | array _ | object _ | broken _ | missing => exact nomatch h

theorem readOptional (h : Yields P r) : Yields (fun o : Option α => ∀ a ∈ o, P a) (Node.readOptional r) := by
  intro node hnode o ho
  unfold Node.readOptional at ho
  split at ho
  next =>
    obtain rfl := Except.ok.inj ho
    exact fun _ ha => nomatch ha
  next =>
    obtain ⟨a, ha, rfl⟩ := except_map_eq_ok.mp ho
    intro b hb
    obtain rfl := Option.some.inj hb
    exact h node hnode a ha

private theorem items_read (h : Yields P r) :
    ∀ (items : Items), items.InRange → ∀ as, items.read r = .ok as → ∀ a ∈ as, P a
  | .closed, _, as, hread => by
    obtain rfl := Except.ok.inj hread
    exact fun _ ha => absurd ha List.not_mem_nil
  | .item value rest, hitems, as, hread => by
    rw [Items.read] at hread
    obtain ⟨first, hfirst, hread⟩ := except_bind_eq_ok.mp hread
    obtain ⟨others, hothers, hread⟩ := except_bind_eq_ok.mp hread
    obtain rfl := Except.ok.inj hread
    intro a ha
    rcases List.mem_cons.mp ha with rfl | ha
    · exact h value hitems.1 _ hfirst
    · exact items_read h rest hitems.2 others hothers a ha
  | .cut _, _, _, hread => nomatch hread

theorem readList (h : Yields P r) : Yields (fun as : List α => ∀ a ∈ as, P a) (Node.readList r) := by
  intro node hnode as hread
  cases node with
  | array items => exact items_read h items hnode as hread
  | null | boolean _ | number _ | string _ | object _ | broken _ | missing => exact nomatch hread

private theorem members_readInto (h : Yields P r) : ∀ (members : Members), members.InRange → ∀ table b,
    members.readInto r table = .ok b → (∀ e ∈ table.entries, P e.2) → ∀ e ∈ b.entries, P e.2
  | .closed, _, table, b, hread, htable => by
    obtain rfl := Except.ok.inj hread
    exact htable
  | .member name value rest, hmembers, table, b, hread, htable => by
    rw [Members.readInto] at hread
    obtain ⟨key, -, hread⟩ := except_bind_eq_ok.mp hread
    obtain ⟨a, ha, hread⟩ := except_bind_eq_ok.mp hread
    refine members_readInto h rest hmembers.2 _ b hread fun e he => ?_
    rcases Bindings.mem_insertEntry he with rfl | he
    · exact h value hmembers.1 a ha
    · exact htable e he
  | .unnamed _, _, _, _, hread, _ => nomatch hread
  | .cut _, _, _, _, hread, _ => nomatch hread

theorem readTable (h : Yields P r) : Yields (fun b : Bindings α => ∀ e ∈ b.entries, P e.2) (Node.readTable r) := by
  intro node hnode b hread
  cases node with
  | object members =>
    exact members_readInto h members hnode .empty b hread fun _ he => absurd he List.not_mem_nil
  | null | boolean _ | number _ | string _ | array _ | broken _ | missing => exact nomatch hread

section Record
variable {Q : σ → Prop} {fields : List (RecordField σ)}

private theorem items_readFields :
    ∀ (items : Items) {fields : List (RecordField σ)}, (∀ field ∈ fields, field.Keeps Q) →
    items.InRange → ∀ s, Q s → ∀ s', items.readFields fields s = .ok s' → Q s'
  | .closed, _, _, _, s, hs, s', hread => by
    rw [Items.readFields] at hread
    obtain rfl := Except.ok.inj hread
    exact hs
  | .item value rest, [], _, _, _, _, _, hread => nomatch hread
  | .item value rest, field :: fields, hfields, hitems, s, hs, s', hread => by
    rw [Items.readFields] at hread
    obtain ⟨t, ht, hread⟩ := except_bind_eq_ok.mp hread
    have hkept := hfields field List.mem_cons_self value hitems.1 s hs t ht
    exact items_readFields rest (fun f hf => hfields f (List.mem_cons_of_mem _ hf)) hitems.2 t hkept s' hread
  | .cut _, _, _, _, _, _, _, hread => by
    rw [Items.readFields] at hread
    exact nomatch hread

private theorem members_readFields (hfields : ∀ field ∈ fields, field.Keeps Q) :
    ∀ (members : Members), members.InRange →
    ∀ s, Q s → ∀ s', members.readFields fields s = .ok s' → Q s'
  | .closed, _, s, hs, s', hread => by
    obtain rfl := Except.ok.inj hread
    exact hs
  | .member name value rest, hmembers, s, hs, s', hread => by
    rw [Members.readFields] at hread
    obtain ⟨key, -, hread⟩ := except_bind_eq_ok.mp hread
    split at hread
    next field hfield =>
      split at hread
      next => exact nomatch hread
      next =>
        obtain ⟨t, ht, hread⟩ := except_bind_eq_ok.mp hread
        have hkept := hfields field (List.mem_of_find?_eq_some hfield) value hmembers.1 s hs t ht
        exact members_readFields hfields rest hmembers.2 t hkept s' hread
    next =>
      obtain ⟨-, hread⟩ := except_check_eq_ok.mp hread
      exact members_readFields hfields rest hmembers.2 s hs s' hread
  | .unnamed _, _, _, _, _, hread => nomatch hread
  | .cut _, _, _, _, _, hread => nomatch hread

/-- A property that every field keeps holds of the whole record. -/
theorem readRecord (hfields : ∀ field ∈ fields, field.Keeps Q) {blank : σ} (hblank : Q blank) :
    Yields Q (Node.readRecord fields blank) := by
  intro node hnode s hread
  cases node with
  | array items => exact items_readFields items hfields hnode blank hblank s hread
  | object members => exact members_readFields hfields members hnode blank hblank s hread
  | null | boolean _ | number _ | string _ | broken _ | missing => exact nomatch hread

end Record

end Yields

end TensorEval.Json
