import TensorEval.Proofs.Attribute.Dense
import TensorEval.Proofs.Text.Quoted

/-! The text of an attribute that was read: it is read again as the same attribute, up to integers of type `i1`, of
which only the truth value is written. -/
namespace TensorEval.Attribute

open Nesting

mutual

/-- The attribute with every integer of type `i1` that is not zero turned into one. -/
def canonical : Attribute → Attribute
  | integer n type => integer (canonicalInteger type n) type
  | denseInteger literal => denseInteger (canonicalLiteral literal)
  | array items => array (canonicalItems items)
  | a => a

def canonicalItems : List Attribute → List Attribute
  | [] => []
  | a :: as => a.canonical :: canonicalItems as

end

theorem itemTexts_eq_map (items : List Attribute) : itemTexts items = items.map text := by
  induction items with
  | nil => rfl
  | cons a as ih => rw [itemTexts, ih, List.map_cons]

private theorem canonicalItems_eq_map (items : List Attribute) : canonicalItems items = items.map canonical := by
  induction items with
  | nil => rfl
  | cons a as ih => rw [canonicalItems, ih, List.map_cons]

private theorem text_canonicalLiteral (literal : Dense Int64) :
    text (denseInteger (canonicalLiteral literal)) = text (denseInteger literal) := by
  obtain ⟨shape, type, values⟩ := literal
  rw [text, text, denseText_eq, denseText_eq]
  cases values with
  | splat n => exact congrArg (withType · shape type) (integerText_canonicalInteger type n)
  | elements ns =>
    have hmap : (ns.map (canonicalInteger type)).map (integerText type) = ns.map (integerText type) := by
      rw [List.map_map]
      exact List.map_congr_left fun n _ => integerText_canonicalInteger type n
    exact congrArg (fun texts => withType (nested shape texts) shape type) hmap

mutual

/-- The text does not tell an attribute from its canonical form. -/
theorem text_canonical : ∀ a : Attribute, a.canonical.text = a.text
  | float _ _ => rfl
  | integer n type => by rw [canonical, text, text, integerText_canonicalInteger]
  | denseFloat _ => rfl
  | denseInteger literal => text_canonicalLiteral literal
  | string _ => rfl
  | unit => rfl
  | array items => by rw [canonical, text, text, itemTexts_canonicalItems items]
  | typeName _ => rfl

private theorem itemTexts_canonicalItems : ∀ items : List Attribute, itemTexts (canonicalItems items) = itemTexts items
  | [] => rfl
  | a :: as => by rw [canonicalItems, itemTexts, itemTexts, text_canonical a, itemTexts_canonicalItems as]

end

theorem read_string (value : String) : read (text (string value)) = .ok (string value) := by
  have htext : text (string value) = '"' :: Text.escape value.toList ++ ['"'] := rfl
  have htrim : Text.trim (text (string value)) = text (string value) := by
    rw [htext]
    exact Text.trim_eq_self (Text.trimmed_between rfl rfl _)
  have hform : Form.of (text (string value)) = .quoted (Text.escape value.toList) := by
    have hnil : text (string value) ≠ [] := List.cons_ne_nil _ _
    have hunit : text (string value) ≠ "unit".toList := fun h => absurd (List.cons.inj h).1 (by decide)
    have hbody : quotedBody (text (string value)) = some (Text.escape value.toList) := beforeLast_append '"' _
    rw [Form.of, if_neg hnil, if_neg hunit, hbody]
  have hread : Reads (text (string value)) (string (String.ofList (Text.unescape (Text.escape value.toList)))) :=
    Reads.string (htrim.symm ▸ hform)
  rw [Text.unescape_escape, String.ofList_toList] at hread
  exact read_eq_ok_iff.mpr hread

section Array
variable {ts : List (List Char)}

private theorem form_array (inner : List Char) : Form.of ('[' :: inner ++ [']']) = .array inner := by
  have hnil : '[' :: inner ++ [']'] ≠ [] := List.cons_ne_nil _ _
  have hunit : '[' :: inner ++ [']'] ≠ "unit".toList := fun h => absurd (List.cons.inj h).1 (by decide)
  have hquoted : quotedBody ('[' :: inner ++ [']']) = none := rfl
  have hdense : denseParts ('[' :: inner ++ [']']) = none := rfl
  have hstart : afterStart ['['] ('[' :: inner ++ [']']) = some (inner ++ [']']) := afterStart_append ['['] _
  rw [Form.of, if_neg hnil, if_neg hunit, hquoted, hdense, hstart]
  dsimp only
  rw [beforeLast_append]

private theorem trim_ne_nil_of_mem_spaced (h : ∀ t ∈ ts, Text.trim t ≠ []) : ∀ s ∈ spaced ts, Text.trim s ≠ [] := by
  intro s hs
  rcases mem_spaced hs with hs | ⟨t, ht, rfl⟩
  · exact h s hs
  · rw [Text.trim_blank_cons rfl]
    exact h t ht

private theorem pieces_commaSeparated (hsep : Separable top ts) (h : ∀ t ∈ ts, Text.trim t ≠ []) :
    pieces (commaSeparated ts) = spaced ts := by
  cases ts with
  | nil => rfl
  | cons t ts =>
    rw [pieces, splitItems_commaSeparated hsep, List.filter_eq_self]
    exact fun s hs => decide_eq_true (trim_ne_nil_of_mem_spaced h s hs)

private theorem reads_spaced {items : List Attribute} (h : List.Forall₂ (fun t a => read t = .ok a) ts items) :
    List.Forall₂ (fun s a => read s = .ok a) (spaced ts) items := by
  cases h with
  | nil => exact List.Forall₂.nil
  | cons hread htail =>
    refine List.Forall₂.cons hread ?_
    rw [List.forall₂_map_left_iff]
    exact htail.imp fun t a ht => read_of_trim_eq (Text.trim_blank_cons rfl t).symm ht

/-- Texts that are read, written as an array, are read as the array of what they are read as. -/
theorem read_array {items : List Attribute} (hsep : Separable top ts)
    (h : List.Forall₂ (fun t a => read t = .ok a) ts items) :
    read ('[' :: commaSeparated ts ++ [']']) = .ok (array items) := by
  have htrim := Text.trim_eq_self (Text.trimmed_between (o := '[') (c := ']') rfl rfl (commaSeparated ts))
  have hne : ∀ t ∈ ts, Text.trim t ≠ [] := by
    intro t ht
    obtain ⟨a, -, hread⟩ := exists_of_mem_forall₂ (R := fun a t => read t = .ok a) h.flip ht
    exact trim_ne_nil_of_read hread
  have hform : Form.of (Text.trim ('[' :: commaSeparated ts ++ [']'])) = .array (commaSeparated ts) := by
    rw [htrim]
    exact form_array _
  rw [read_eq_ok_iff]
  refine Reads.array hform ?_
  rw [pieces_commaSeparated hsep hne]
  exact reads_spaced h

end Array

/-- Pieces that are read stay apart when each gives way to the text of what it is read as. -/
private theorem read_text_array {cs inner : List Char} {items : List Attribute}
    (hform : Form.of (Text.trim cs) = .array inner)
    (h : List.Forall₂ (fun piece (a : Attribute) => read a.text = .ok a.canonical ∧ Replaces a.text piece)
      (pieces inner) items) :
    read (text (array items)) = .ok (canonical (array items)) ∧ Replaces (text (array items)) cs := by
  have hreplaces : List.Forall₂ (fun piece t => Replaces t piece) (pieces inner) (items.map text) :=
    List.forall₂_map_right_iff.mpr (h.imp fun _ _ hpair => hpair.2)
  have hread : List.Forall₂ (fun t a => read t = .ok a) (items.map text) (items.map canonical) := by
    rw [List.forall₂_map_left_iff, List.forall₂_map_right_iff, List.forall₂_same]
    intro a ha
    obtain ⟨piece, -, hpair⟩ := exists_of_mem_forall₂ h ha
    exact hpair.1
  have hsep : Separable top (items.map text) :=
    separable_of_replaces hreplaces ((separable_splitFrom top inner).filter _)
  rw [text, canonical, itemTexts_eq_map, canonicalItems_eq_map]
  refine ⟨read_array hsep hread, Replaces.trans ?_ (replaces_trim cs)⟩
  rw [eq_of_form_array hform]
  exact replaces_array _ hreplaces

/-- The text of an attribute that was read is read as its canonical form, and it can take the place of the text it was
read from in an array. The second half carries the induction: items are found again only where no comma and no bracket
of a neighbour gets in the way. -/
theorem read_text {cs : List Char} {a : Attribute} (h : read cs = .ok a) :
    read a.text = .ok a.canonical ∧ Replaces a.text cs := by
  induction hlen : cs.length using Nat.strongRecOn generalizing cs a with
  | _ n ih =>
    subst hlen
    cases read_eq_ok_iff.mp h with
    | unit => exact ⟨rfl, replaces_of_level (level_of_any (by decide)) cs⟩
    | string => exact ⟨read_string _, replaces_of_level (level_quoted 0 _) cs⟩
    | dense _ hread =>
      rcases readDenseParts_cases hread with ⟨literal, rfl, hfloat, hliteral⟩ | ⟨literal, rfl, hfloat, hliteral⟩
      · exact ⟨read_denseFloat hfloat hliteral, replaces_of_level (level_denseText (token_floatText _) literal) cs⟩
      · exact ⟨read_denseInteger hfloat hliteral,
          replaces_of_level (level_denseText (token_integerText _) literal) cs⟩
    | array hform hitems =>
      apply read_text_array hform
      apply forall₂_imp_of_mem hitems
      intro piece hpiece a hread
      exact ih piece.length (length_lt_of_mem_pieces hform hpiece) hread rfl
    | plain hform hread =>
      rcases readPlain_cases hread with ⟨x, type, rfl, hfloat, hkept⟩ | ⟨n, type, rfl, hfloat⟩ | rfl
      · exact ⟨read_float hfloat hkept, replaces_of_level (level_float type x) cs⟩
      · exact ⟨read_integer hfloat n, replaces_of_level (level_integer type n) cs⟩
      · have htext : text (typeName (String.ofList (Text.trim cs))) = Text.trim cs := String.toList_ofList
        rw [htext]
        exact ⟨read_of_trim_eq (Text.trim_trim cs).symm h, replaces_trim cs⟩

/-- An attribute that was read is read again from its own text. The second reading has the same kinds, items, strings,
type texts, shapes, types and numbers, bit for bit, except that an integer of type `i1` other than zero is one; so both
have the same text. -/
theorem ofString_toString {s : String} {a : Attribute} (h : ofString s = .ok a) :
    ofString a.toString = .ok a.canonical ∧ a.canonical.toString = a.toString := by
  have hread : read a.toString.toList = .ok a.canonical := by
    rw [toString, String.toList_ofList]
    exact (read_text h).1
  exact ⟨hread, congrArg String.ofList (text_canonical a)⟩

/-- A type with a bracket too many, a string with a quote and a comma, truth values out of range, a signalling NaN and a
negative zero. -/
def mixedText : String := "[tensor<],\"a\\\",[\" , 7 : i1, dense<[[5, 0]]> : tensor<1x2xi1>, [0xFC01:f16, -0.0], ]"

def mixed : Attribute :=
  .array [.typeName "tensor<]", .string "a\",[", .integer 7 .i1, .denseInteger ⟨[1, 2], .i1, .elements [5, 0]⟩,
    .array [.float (.ofBits .binary64 0xFFF8040000000000) .f16, .float (.zero .binary64 true) .f64]]

theorem ofString_toString_mixed :
    ofString mixedText = .ok mixed ∧
      ofString mixed.toString = .ok mixed.canonical ∧ mixed.canonical.toString = mixed.toString := by
  have h : ofString mixedText = .ok mixed := by rfl
  exact ⟨h, ofString_toString h⟩

end TensorEval.Attribute
