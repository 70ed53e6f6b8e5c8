import Mathlib.Data.List.Infix
import TensorEval.Proofs.Attribute.Listed
import TensorEval.Proofs.Attribute.RoundTrip

/-! The items of an array as one text: splitting it loses nothing, and it finds the texts of the items again where the
types among them are balanced. -/
namespace TensorEval.Attribute

open Nesting

section Brackets
variable {n : Nesting} {cs : List Char} {c : Char}

def isOpening (c : Char) : Bool := c = '[' || c = '<' || c = '(' || c = '\x7b'

def isClosing (c : Char) : Bool := c = ']' || c = '>' || c = ')' || c = '\x7d'

/-- Whether a text closes the brackets that it opens and no others, and has neither quotes nor a comma outside of
brackets. Which kind of bracket closes another one does not matter. -/
structure Balanced (cs : List Char) : Prop where
  nonneg : ∀ p, p <+: cs → p.countP isClosing ≤ p.countP isOpening
  closed : cs.countP isClosing = cs.countP isOpening
  unquoted : '"' ∉ cs
  comma : ∀ p, p ++ [','] <+: cs → p.countP isClosing ≠ p.countP isOpening

instance (cs : List Char) : Decidable (Balanced cs) :=
  decidable_of_iff ((∀ p ∈ cs.inits, p.countP isClosing ≤ p.countP isOpening) ∧
      cs.countP isClosing = cs.countP isOpening ∧ '"' ∉ cs ∧
      ∀ p ∈ cs.inits, p ++ [','] <+: cs → p.countP isClosing ≠ p.countP isOpening)
    ⟨fun ⟨hnonneg, hclosed, hunquoted, hcomma⟩ => ⟨fun p hp => hnonneg p ((List.mem_inits p cs).mpr hp), hclosed,
      hunquoted, fun p hp => hcomma p ((List.mem_inits p cs).mpr ((List.prefix_append p [',']).trans hp)) hp⟩,
      fun h => ⟨fun p hp => h.nonneg p ((List.mem_inits p cs).mp hp), h.closed, h.unquoted, fun p _ => h.comma p⟩⟩

private theorem turn_eq (c : Char) :
    turn c = (if isOpening c then 1 else 0) - if isClosing c then 1 else 0 := by
  by_cases hopen : c = '[' ∨ c = '<' ∨ c = '(' ∨ c = '\x7b'
  · rcases hopen with rfl | rfl | rfl | rfl <;> rfl
  · by_cases hclose : c = ']' ∨ c = '>' ∨ c = ')' ∨ c = '\x7d'
    · rcases hclose with rfl | rfl | rfl | rfl <;> rfl
    · simp only [not_or] at hopen hclose
      simp [turn, isOpening, isClosing, hopen, hclose]

/-- Without quotes a scan ends as many brackets deeper as more of them are opened than closed. -/
private theorem run_level_of_unquoted (h : '"' ∉ cs) (d : Int) :
    (level d).run cs = level (d + cs.countP isOpening - cs.countP isClosing) := by
  induction cs generalizing d with
  | nil => simp [run_nil]
  | cons c cs ih =>
    rw [run_cons, step_level, if_neg (List.ne_of_not_mem_cons h).symm, ih (List.not_mem_of_not_mem_cons h), turn_eq,
      List.countP_cons, List.countP_cons]
    congr 1
    split <;> split <;> omega

private theorem keeps_of_prefixes (h : ∀ p c, p ++ [c] <+: cs → (n.run p).separates c = false) : n.Keeps cs := by
  induction cs generalizing n with
  | nil => trivial
  | cons c cs ih =>
    refine ⟨h [] c (List.prefix_append [c] cs), ih fun p d hp => ?_⟩
    exact h (c :: p) d ((List.prefix_cons_inj c).mpr hp)

/-- A balanced text is passed as a whole. -/
theorem Balanced.level (h : Balanced cs) : Level 0 cs := by
  intro d _
  constructor
  · apply keeps_of_prefixes
    intro p c hp
    by_cases hc : c = ','
    · -- A comma stands inside of a bracket of the text, and so in one more than the scan started in.
      subst hc
      have hbefore : p <+: cs := (List.prefix_append p [',']).trans hp
      have hunquoted : '"' ∉ p := fun hmem => h.unquoted (hbefore.subset hmem)
      have hnonneg := h.nonneg p hbefore
      have hcomma := h.comma p hp
      rw [run_level_of_unquoted hunquoted]
      exact separates_level (by omega) _
    · exact separates_of_ne hc _
  · rw [run_level_of_unquoted h.unquoted, h.closed, Int.add_sub_cancel]

end Brackets

section Texts
variable {items : List Attribute} {ts : List (List Char)}

mutual

/-- The text of an attribute is passed as a whole if its types are balanced. Strings are, whatever they hold, since their
quotes are escaped. -/
theorem level_text : ∀ a : Attribute, (∀ spelling, Inside (typeName spelling) a → Balanced spelling.toList) →
    Level 0 a.text
  | float x type, _ => level_float type x
  | integer n type, _ => level_integer type n
  | denseFloat literal, _ => level_denseText (token_floatText literal.type) literal
  | denseInteger literal, _ => level_denseText (token_integerText literal.type) literal
  | string value, _ => level_quoted 0 value.toList
  | unit, _ => level_of_any (by decide)
  | array items, h => by
    have hitems := level_itemTexts items fun a ha spelling hspelling => h spelling (.item ha hspelling)
    exact Level.brackets (o := '[') (c := ']') rfl rfl
      (level_commaSeparated fun t ht => (hitems t ht).mono (Nat.zero_le 1))
  | typeName spelling, h => (h spelling .self).level

theorem level_itemTexts : ∀ items : List Attribute,
    (∀ a ∈ items, ∀ spelling, Inside (typeName spelling) a → Balanced spelling.toList) →
    ∀ t ∈ itemTexts items, Level 0 t
  | [], _ => fun _ ht => absurd ht List.not_mem_nil
  | a :: as, h => by
    intro t ht
    rcases List.mem_cons.mp ht with rfl | ht
    · exact level_text a (h a List.mem_cons_self)
    · exact level_itemTexts as (fun b hb => h b (List.mem_cons_of_mem a hb)) t ht

end

private theorem separable_of_level (h : ∀ t ∈ ts, Level 0 t) : Separable top ts := by
  induction ts with
  | nil => trivial
  | cons t ts ih =>
    obtain ⟨hkeeps, hrun⟩ := h t List.mem_cons_self 0 (Nat.le_refl 0)
    exact Separable.cons hkeeps hrun (ih fun u hu => h u (List.mem_cons_of_mem t hu))

private theorem map_trim_spaced (ts : List (List Char)) : (spaced ts).map Text.trim = ts.map Text.trim := by
  cases ts with
  | nil => rfl
  | cons t ts =>
    have htrim : Text.trim ∘ (' ' :: ·) = Text.trim := funext fun u => Text.trim_blank_cons rfl u
    rw [spaced, List.map_cons, List.map_cons, List.map_map, htrim]

theorem joined_eq_intercalate (ts : List (List Char)) : joined ts = [','].intercalate ts := by
  induction ts with
  | nil => rfl
  | cons t ts ih =>
    cases ts with
    | nil => rw [List.intercalate_singleton, joined, List.flatMap_nil, List.append_nil]
    | cons u ts =>
      rw [List.intercalate_cons_cons, ← ih, List.append_assoc]
      rfl

end Texts

/-- Splitting takes away nothing but the commas between the pieces, and the texts of attributes that are written in a row
come back in their order, each but the first with the blank that was written before it. -/
theorem splitItems_intercalate :
    (∀ cs, [','].intercalate (splitItems cs) = cs) ∧
      ∀ items : List Attribute, items ≠ [] →
        (∀ a ∈ items, ∀ spelling, Inside (typeName spelling) a → Balanced spelling.toList) →
        splitItems (commaSeparated (items.map text)) = spaced (items.map text) ∧
          (splitItems (commaSeparated (items.map text))).map Text.trim = (items.map text).map Text.trim := by
  constructor
  · intro cs
    rw [← joined_eq_intercalate]
    exact joined_splitFrom top cs
  · intro items hne htypes
    have hsep : Separable top (items.map text) := by
      apply separable_of_level
      rw [← itemTexts_eq_map]
      exact level_itemTexts items htypes
    have hsplit : splitItems (commaSeparated (items.map text)) = spaced (items.map text) := by
      cases items with
      | nil => exact absurd rfl hne
      | cons a as => exact splitItems_commaSeparated hsep
    exact ⟨hsplit, by rw [hsplit, map_trim_spaced]⟩

/-- A string that looks like the start of an array, an array with a comma inside of a type, and a type. -/
def rowOfItems : List Attribute :=
  [.string "a\",[\\", .array [.typeName "tensor<2x(f32, [i8])>", .string "]"], .typeName "vector<4xf32>"]

theorem splitItems_intercalate_rowOfItems :
    rowOfItems ≠ [] ∧ (∀ a ∈ rowOfItems, ∀ spelling, Inside (typeName spelling) a → Balanced spelling.toList) ∧
      splitItems (commaSeparated (rowOfItems.map text)) = ["\"a\\\",[\\\\\"".toList,
        " [tensor<2x(f32, [i8])>, \"]\"]".toList, " vector<4xf32>".toList] ∧
      (splitItems (commaSeparated (rowOfItems.map text))).map Text.trim = (rowOfItems.map text).map Text.trim := by
  have hne : rowOfItems ≠ [] := List.cons_ne_nil _ _
  have htypes : ∀ a ∈ rowOfItems, ∀ spelling, Inside (typeName spelling) a → Balanced spelling.toList := by
    intro a ha spelling h
    simp only [rowOfItems, List.mem_cons, List.not_mem_nil, or_false] at ha
    rcases ha with rfl | rfl | rfl
    · cases h
    · cases h with
      | item hb h =>
        simp only [List.mem_cons, List.not_mem_nil, or_false] at hb
        rcases hb with rfl | rfl
        · cases h
          decide
        · cases h
    · cases h
      decide
  exact ⟨hne, htypes, splitItems_intercalate.2 rowOfItems hne htypes⟩

/-- A type that is not balanced takes the next item in. -/
example : splitItems (commaSeparated ([typeName "tensor<", unit].map text)) = ["tensor<, unit".toList] := rfl

end TensorEval.Attribute
