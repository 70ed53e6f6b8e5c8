import TensorEval.Proofs.Attribute.Dense
import TensorEval.Proofs.Element
import TensorEval.Proofs.Kernel
import TensorEval.Proofs.Tensor.Form

/-! Constants from dense lists: a list is filled into a tensor if its values are one element of its type. That is decided
when the list is read, by rounded bits and wrapped words, and it holds of the elements that are made of the values later. -/
namespace TensorEval

/-- Whether values become elements with the same bits. -/
def Uniform (type : ElementType) (values : List Fill) : Prop :=
  ∀ v ∈ values, ∀ w ∈ values, type.carrier.code (Element.ofFill type v) = type.carrier.code (Element.ofFill type w)

instance (type : ElementType) (values : List Fill) : Decidable (Uniform type values) :=
  inferInstanceAs (Decidable (∀ v ∈ values, ∀ w ∈ values,
    type.carrier.code (Element.ofFill type v) = type.carrier.code (Element.ofFill type w)))

/-- Whether a tensor has a form, and all its elements have the bits of a value. -/
structure Tensor.Filled (x : Tensor) (type : ElementType) (shape : Shape) (value : Fill) : Prop where
  form : x.form = (type, shape)
  element : ∀ v ∈ x.elements, x.type.carrier.code v = type.carrier.code (Element.ofFill type value)

theorem Tensor.Filled.congr {x : Tensor} {type : ElementType} {shape : Shape} {v w : Fill} (h : x.Filled type shape v)
    (hsame : Element.ofFill type v = Element.ofFill type w) : x.Filled type shape w :=
  ⟨h.form, hsame ▸ h.element⟩

theorem Tensor.filled_full {shape : Shape} {type : ElementType} {value : Fill} {x : Tensor}
    (h : full shape type value = .ok x) : x.Filled type shape value := by
  refine ⟨form_full h, ?_⟩
  unfold full at h
  split at h
  · obtain rfl := Except.ok.inj h
    intro v hv
    rw [List.eq_of_mem_replicate hv]
  · cases h

theorem Dense.uniform_eq_ok {α : Type} {literal : Dense α} {value : α} :
    literal.uniform = .ok value ↔ literal.values = .splat value := by
  unfold uniform
  cases literal.values <;> simp

namespace Attribute

section Constant
variable {α : Type} {same : α → α → Bool} {fill : α → Fill} {a : Attribute} {literal : Dense α} {limit : Nat}

theorem materialize_of_splat
    (hparts : Kernel.constantParts a = literal.uniform.map fun value => (literal.shape, literal.type, fill value))
    {value : α} (hvalues : literal.values = .splat value) (hstored : literal.shape.Allocatable)
    (hlimit : checkSize limit literal.shape literal.type = .ok ()) :
    ∃ x, Kernel.materialize limit a = .ok x ∧ x.Filled literal.type literal.shape (fill value) := by
  rw [Dense.uniform_eq_ok.mpr hvalues] at hparts
  exact ⟨_, Kernel.materialize_eq_ok.mpr ⟨_, _, _, hparts, hlimit, if_pos hstored⟩, Tensor.filled_full (if_pos hstored)⟩

theorem filled_of_materialize {x : Tensor} (h : Kernel.materialize limit a = .ok x) :
    ∃ shape type value, Kernel.constantParts a = .ok (shape, type, value) ∧ x.Filled type shape value := by
  obtain ⟨shape, type, value, hparts, -, hfull⟩ := Kernel.materialize_eq_ok.mp h
  exact ⟨shape, type, value, hparts, Tensor.filled_full hfull⟩

theorem materialize_of_elements
    (hparts : Kernel.constantParts a = literal.uniform.map fun value => (literal.shape, literal.type, fill value))
    {values : List α} (hvalues : literal.values = .elements values) :
    Kernel.materialize limit a = .error (.failed (.notUniform literal.shape)) := by
  have huniform : literal.uniform = .error (.notUniform literal.shape) := by rw [Dense.uniform, hvalues]
  rw [Kernel.materialize, hparts, huniform]
  rfl

/-- Values become the same element if all of them become that of the first one. -/
theorem uniform_cons_iff {type : ElementType} {first : α} {rest : List α}
    (hsame : ∀ x y, same x y = true ↔ Element.ofFill type (fill x) = Element.ofFill type (fill y)) :
    Uniform type ((first :: rest).map fill) ↔ rest.all (same first) = true := by
  constructor
  · refine fun huniform => List.all_eq_true.mpr fun x hx => (hsame first x).mpr ?_
    exact Carrier.code_inj.mp (huniform _ List.mem_cons_self _ (List.mem_cons_of_mem _ (List.mem_map_of_mem hx)))
  · intro hall
    have hcode : ∀ v ∈ (first :: rest).map fill,
        type.carrier.code (Element.ofFill type v) = type.carrier.code (Element.ofFill type (fill first)) := by
      intro v hv
      obtain ⟨x, hx, rfl⟩ := List.mem_map.mp hv
      rcases List.mem_cons.mp hx with rfl | hx
      · rfl
      · rw [(hsame first x).mp (List.all_eq_true.mp hall x hx)]
    exact fun v hv w hw => (hcode v hv).trans (hcode w hw).symm

/-- All values that one value stands for become the same element. -/
theorem ofFill_of_collapse {type : ElementType} {values : List α} {x : α}
    (hsame : ∀ x y, same x y = true ↔ Element.ofFill type (fill x) = Element.ofFill type (fill y))
    (h : collapse same values = .splat x) {v : α} (hv : v ∈ values) :
    Element.ofFill type (fill v) = Element.ofFill type (fill x) := by
  cases values with
  | nil => exact absurd hv List.not_mem_nil
  | cons first rest =>
    unfold collapse at h
    dsimp only at h
    split at h
    next hall =>
      obtain rfl := DenseValues.splat.inj h
      exact Carrier.code_inj.mp ((uniform_cons_iff hsame).mpr hall _ (List.mem_map_of_mem hv) _ List.mem_cons_self)
    next => exact nomatch h

private theorem materialize_collapse
    (hparts : Kernel.constantParts a = literal.uniform.map fun value => (literal.shape, literal.type, fill value))
    (hsame : ∀ x y, same x y = true ↔ Element.ofFill literal.type (fill x) = Element.ofFill literal.type (fill y))
    {values : List α} (hvalues : literal.values = collapse same values) (hne : values ≠ [])
    (hstored : literal.shape.Allocatable) (hlimit : checkSize limit literal.shape literal.type = .ok ()) :
    (Uniform literal.type (values.map fill) ∧ ∃ x, Kernel.materialize limit a = .ok x ∧
      ∀ v ∈ values.map fill, x.Filled literal.type literal.shape v) ∨
    (¬Uniform literal.type (values.map fill) ∧
      Kernel.materialize limit a = .error (.failed (.notUniform literal.shape))) := by
  obtain ⟨first, rest, rfl⟩ := List.exists_cons_of_ne_nil hne
  by_cases hall : rest.all (same first) = true
  · have huniform := (uniform_cons_iff hsame).mpr hall
    obtain ⟨x, hx, hfilled⟩ := materialize_of_splat hparts (hvalues.trans (if_pos hall)) hstored hlimit
    exact Or.inl ⟨huniform, x, hx, fun v hv =>
      ⟨hfilled.form, fun e he => (hfilled.element e he).trans (huniform _ List.mem_cons_self v hv)⟩⟩
  · exact Or.inr ⟨mt (uniform_cons_iff hsame).mp hall,
      materialize_of_elements hparts (hvalues.trans (if_neg hall))⟩

end Constant

section List
variable {s : String} {body contents : List Char}

def readFill (type : ElementType) (token : List Char) : Except AttributeFault Fill :=
  if type.isFloat then (readFloat type token).map .float else (readInteger token).map .integer

/-- What a constant makes of the tokens of a list, if each is read as a value and the values are told apart by the
elements that they become. -/
private theorem materialize_tokens {α : Type} {same : α → α → Bool} {fill : α → Fill} {dense : Dense α → Attribute}
    {readValue : List Char → Except AttributeFault α} {shape : Shape} {type : ElementType} {tokens : List (List Char)}
    {a : Attribute}
    (hparts : ∀ d, Kernel.constantParts (dense d) = d.uniform.map fun value => (d.shape, d.type, fill value))
    (hsame : ∀ x y, same x y = true ↔ Element.ofFill type (fill x) = Element.ofFill type (fill y))
    (hfill : ∀ token, readFill type token = (readValue token).map fill)
    (h : (tokens.mapM readValue >>= fun values => .ok (dense ⟨shape, type, collapse same values⟩)) = .ok a)
    (hne : tokens ≠ []) (hstored : shape.Allocatable) :
    ∃ values, tokens.mapM (readFill type) = .ok values ∧ ∀ limit, checkSize limit shape type = .ok () →
      (Uniform type values ∧ ∃ x, Kernel.materialize limit a = .ok x ∧ ∀ v ∈ values, x.Filled type shape v) ∨
      (¬Uniform type values ∧ Kernel.materialize limit a = .error (.failed (.notUniform shape))) := by
  obtain ⟨values, hvalues, h⟩ := except_bind_eq_ok.mp h
  obtain rfl := Except.ok.inj h
  have hread := except_mapM_eq_ok.mp hvalues
  have hvaluesne : values ≠ [] := by
    rintro rfl
    exact hne (List.forall₂_nil_right_iff.mp hread)
  refine ⟨values.map fill, ?_, fun limit hlimit =>
    materialize_collapse (hparts ⟨shape, type, _⟩) hsame rfl hvaluesne hstored hlimit⟩
  rw [except_mapM_eq_ok, List.forall₂_map_right_iff]
  exact hread.imp fun token value hvalue => by rw [hfill, hvalue, except_map_ok]

private theorem readDenseParts_of_ofString {a : Attribute} (hform : Form.of (Text.trim s.toList) = .dense body contents)
    (hread : Attribute.ofString s = .ok a) : readDenseParts body contents = .ok a :=
  (read_dense_iff hform).mp hread

/-- No list has more tokens than its text has characters, so a list that is no longer than storage can be has storage. -/
private theorem allocatable_of_list {shape : Shape} (hform : Form.of (Text.trim s.toList) = .dense body contents)
    (hlen : s.length < signedBound) (hne : listTokens (Text.trim body) ≠ [])
    (hcount : shape.elementCount = some (listTokens (Text.trim body)).length) : shape.Allocatable := by
  have hsize := Shape.elementCount_eq_some hcount
  have hpos := List.length_pos_iff.mpr hne
  rw [Shape.Allocatable, Shape.nonzeroSize_eq_size (by omega), ← hsize]
  calc (listTokens (Text.trim body)).length
    _ ≤ (Text.trim body).length := length_listTokens_le _
    _ ≤ body.length := Text.length_trim_le body
    _ ≤ (Text.trim s.toList).length := length_le_of_denseParts (denseParts_of_form hform)
    _ ≤ s.toList.length := Text.length_trim_le _
    _ = s.length := String.length_toList
    _ < signedBound := hlen

/-- A dense list that is read becomes a constant if its values become the same element, bit by bit: the tensor of its type
and shape that is filled with this element. A text is shorter than storage can be. -/
theorem materialize_list {a : Attribute} (hform : Form.of (Text.trim s.toList) = .dense body contents)
    (hlist : (Text.trim body).head? = some '[') (hne : listTokens (Text.trim body) ≠ [])
    (hread : Attribute.ofString s = .ok a) (hlen : s.length < signedBound) :
    ∃ shape type values, readTensorType contents = .ok (shape, type) ∧
      (listTokens (Text.trim body)).mapM (readFill type) = .ok values ∧
      ∀ limit, checkSize limit shape type = .ok () →
        (Uniform type values ∧ ∃ x, Kernel.materialize limit a = .ok x ∧ ∀ v ∈ values, x.Filled type shape v) ∨
        (¬Uniform type values ∧ Kernel.materialize limit a = .error (.failed (.notUniform shape))) := by
  obtain ⟨⟨shape, type⟩, htype, h⟩ := except_bind_eq_ok.mp (readDenseParts_of_ofString hform hread)
  dsimp only at h
  rw [readDense_eq] at h
  obtain ⟨tokens, htokens, h⟩ := except_bind_eq_ok.mp h
  obtain ⟨rfl, hcount⟩ := bodyTokens_of_list hlist htokens
  have hstored := allocatable_of_list hform hlen hne hcount
  refine ⟨shape, type, ?_⟩
  simp only [htype, true_and]
  split at h
  next hfloat =>
    exact materialize_tokens (fun _ => rfl) (fun _ _ => decide_eq_true_iff) (fun _ => if_pos hfloat) h hne hstored
  next hfloat =>
    exact materialize_tokens (fun _ => rfl) (fun _ _ => decide_eq_true_iff) (fun _ => if_neg hfloat) h hne hstored

/-- As bytes, 255 and -1 have the same bits. -/
theorem materialize_list_bytes : ∃ a x, Attribute.ofString "dense<[255, -1]> : tensor<2xi8>" = .ok a ∧
    Kernel.materialize defaultLimit a = .ok x ∧ x.Filled .i8 [2] (.integer 255) := by
  have htext : "dense<[255, -1]> : tensor<2xi8>".toList = withType "[255, -1]".toList [2] .i8 := by decide
  have hform : Form.of (Text.trim "dense<[255, -1]> : tensor<2xi8>".toList) =
      .dense "[255, -1]".toList (typeContents [2] .i8) := by
    rw [htext, Text.trim_eq_self (trimmed_withType _ _ _), form_withType]
  obtain ⟨a, ha⟩ : ∃ a, Attribute.ofString "dense<[255, -1]> : tensor<2xi8>" = .ok a := by
    have hok : (Attribute.ofString "dense<[255, -1]> : tensor<2xi8>").isOk = true := by decide +kernel
    cases h : Attribute.ofString "dense<[255, -1]> : tensor<2xi8>" with
    | ok a => exact ⟨a, rfl⟩
    | error e => exact nomatch h ▸ hok
  obtain ⟨shape, type, values, htype, hvalues, hresult⟩ := materialize_list hform (by decide) (by decide) ha (by decide)
  rw [readTensorType_typeContents [2] .i8 (by decide)] at htype
  obtain ⟨rfl, rfl⟩ := Prod.mk.inj (Except.ok.inj htype)
  have htokens : (listTokens (Text.trim "[255, -1]".toList)).mapM (readFill .i8) = .ok [.integer 255, .integer (-1)] := rfl
  obtain rfl := Except.ok.inj (htokens.symm.trans hvalues)
  rcases hresult defaultLimit (by decide) with ⟨-, x, hx, hfilled⟩ | ⟨hnot, -⟩
  · exact ⟨a, x, ha, hx, hfilled _ List.mem_cons_self⟩
  · exact absurd (by decide) hnot

end List

end Attribute

end TensorEval
