import TensorEval.Proofs.Attribute.Splat

/-! Dense attributes that list their values, wherever they stand in what a text is read as. The values fill the shape, and
two of them are different elements unless the shape has none. A constant is refused as not uniform exactly if its values
are listed. -/
namespace TensorEval.Attribute

/-- Whether an attribute is another one or stands in it, at any depth of arrays. -/
inductive Inside (d : Attribute) : Attribute → Prop where
  | self : Inside d d
  | item {a : Attribute} {items : List Attribute} (ha : a ∈ items) (h : Inside d a) : Inside d (.array items)

def listed? : Attribute → Option (Shape × ElementType × List Fill)
  | .denseFloat ⟨shape, type, .elements values⟩ => some (shape, type, values.map .float)
  | .denseInteger ⟨shape, type, .elements values⟩ => some (shape, type, values.map .integer)
  | _ => none

section Constant
variable {a : Attribute} {limit : Nat} {shape : Shape}

private theorem constantParts_eq_notUniform_iff :
    Kernel.constantParts a = .error (.notUniform shape) ↔ ∃ type values, a.listed? = some (shape, type, values) := by
  cases a with
  | denseFloat literal | denseInteger literal =>
    obtain ⟨shape', type, values⟩ := literal
    cases values <;> simp [Kernel.constantParts, Dense.uniform, listed?]
  | float | integer | string | unit | array | typeName => simp [Kernel.constantParts, listed?]

private theorem materialize_ne_notUniform {type : ElementType} {fill : Fill} {s : Shape}
    (hparts : Kernel.constantParts a = .ok (s, type, fill)) :
    Kernel.materialize limit a ≠ .error (.failed (.notUniform shape)) := by
  rw [Kernel.materialize, hparts, Outcome.ofExcept_ok, except_ok_bind]
  intro h
  rcases except_check_eq_error.mp h with hsize | ⟨-, hfull⟩
  · obtain ⟨failure, hfailure, heq⟩ := Outcome.ofExcept_eq_error.mp hsize
    obtain rfl := Stop.failed.inj heq
    rcases checkSize_eq_error_iff.mp hfailure with ⟨-, hcause⟩ | ⟨_, -, -, hcause⟩
    · cases hcause
    · cases hcause
  · unfold Tensor.full at hfull
    split at hfull
    · cases hfull
    · cases hfull

/-- A constant is refused as not uniform if its values are listed, whatever they are. -/
theorem materialize_eq_notUniform_iff : Kernel.materialize limit a = .error (.failed (.notUniform shape)) ↔
    ∃ type values, a.listed? = some (shape, type, values) := by
  rw [← constantParts_eq_notUniform_iff]
  cases hparts : Kernel.constantParts a with
  | ok parts => exact iff_of_false (materialize_ne_notUniform hparts) nofun
  | error failure =>
    rw [Kernel.materialize, hparts]
    simp [Outcome.ofExcept, Except.mapError]

end Constant

/-- Listed values fill their shape, and two of them are different elements if the shape has elements at all. -/
private theorem Literal.listed {α : Type} {good : α → Prop} {same : α → α → Bool} {literal : Dense α}
    (h : Literal good same literal) (fill : α → Fill)
    (hsame : ∀ x y, same x y = true ↔ Element.ofFill literal.type (fill x) = Element.ofFill literal.type (fill y))
    {values : List α} (hvalues : literal.values = .elements values) :
    values.length = literal.shape.size ∧ (¬Uniform literal.type (values.map fill) ↔ 0 ∉ literal.shape) := by
  obtain ⟨-, n, hcount, hlisted⟩ := h
  rw [hvalues] at hlisted
  obtain ⟨hlen, -, -, hcollapse⟩ := hlisted
  have hsize : values.length = literal.shape.size := hlen.trans (Shape.elementCount_eq_some hcount)
  refine ⟨hsize, ?_⟩
  rw [← Shape.size_eq_zero, ← hsize]
  cases values with
  | nil => exact iff_of_false (fun hnot => hnot fun v hv => absurd hv List.not_mem_nil) fun hnot => hnot rfl
  | cons first rest =>
    refine iff_of_true (fun huniform => ?_) nofun
    have hsplat : collapse same (first :: rest) = .splat first := if_pos ((uniform_cons_iff hsame).mp huniform)
    exact nomatch hsplat.symm.trans hcollapse

private theorem read_item {cs : List Char} {items : List Attribute} (h : read cs = .ok (.array items)) {a : Attribute}
    (ha : a ∈ items) : ∃ piece, read piece = .ok a := by
  cases read_eq_ok_iff.mp h with
  | dense _ hread =>
    rcases readDenseParts_cases hread with ⟨literal, heq, -⟩ | ⟨literal, heq, -⟩
    · exact nomatch heq
    · exact nomatch heq
  | array _ hitems =>
    obtain ⟨piece, -, hread⟩ := exists_of_mem_forall₂ hitems ha
    exact ⟨piece, hread⟩
  | plain _ hread =>
    rcases readPlain_cases hread with ⟨x, type, heq, -⟩ | ⟨n, type, heq, -⟩ | heq
    · exact nomatch heq
    · exact nomatch heq
    · exact nomatch heq

private theorem read_inside {cs : List Char} {a d : Attribute} (h : read cs = .ok a) (hd : Inside d a) :
    ∃ piece, read piece = .ok d := by
  induction hd generalizing cs with
  | self => exact ⟨cs, h⟩
  | item ha _ ih =>
    obtain ⟨piece, hpiece⟩ := read_item h ha
    exact ih hpiece

private theorem listed_of_read {cs : List Char} {d : Attribute} (h : read cs = .ok d) {shape : Shape}
    {type : ElementType}
    {values : List Fill} (hlisted : d.listed? = some (shape, type, values)) :
    values.length = shape.size ∧ (¬Uniform type values ↔ 0 ∉ shape) := by
  cases read_eq_ok_iff.mp h with
  | unit | string | array => exact nomatch hlisted
  | dense _ hread =>
    rcases readDenseParts_cases hread with ⟨⟨s, t, xs⟩, rfl, hfloat, hliteral⟩ | ⟨⟨s, t, xs⟩, rfl, hfloat, hliteral⟩
    · cases xs with
      | splat x => exact nomatch hlisted
      | elements xs =>
        obtain ⟨rfl, rfl, rfl⟩ : s = shape ∧ t = type ∧ xs.map .float = values := by simpa [listed?] using hlisted
        rw [List.length_map]
        exact hliteral.listed .float (fun _ _ => decide_eq_true_iff) rfl
    · cases xs with
      | splat x => exact nomatch hlisted
      | elements xs =>
        obtain ⟨rfl, rfl, rfl⟩ : s = shape ∧ t = type ∧ xs.map .integer = values := by simpa [listed?] using hlisted
        rw [List.length_map]
        exact hliteral.listed .integer (fun _ _ => decide_eq_true_iff) rfl
  | plain _ hread =>
    rcases readPlain_cases hread with ⟨x, type, rfl, -⟩ | ⟨n, type, rfl, -⟩ | rfl
    · exact nomatch hlisted
    · exact nomatch hlisted
    · exact nomatch hlisted

/-- A dense attribute in what a text is read as lists as many values as its shape has elements. Two of them are different
elements unless the shape has none: then none is listed, and the constant is refused as not uniform nevertheless. -/
theorem listed_of_ofString {s : String} {a d : Attribute} (h : ofString s = .ok a) (hd : Inside d a) :
    (∀ shape type values, d.listed? = some (shape, type, values) →
      values.length = shape.size ∧ (¬Uniform type values ↔ 0 ∉ shape)) ∧
    ∀ limit shape, Kernel.materialize limit d = .error (.failed (.notUniform shape)) ↔
      ∃ type values, d.listed? = some (shape, type, values) := by
  obtain ⟨piece, hread⟩ := read_inside h hd
  exact ⟨fun _ _ _ hlisted => listed_of_read hread hlisted, fun _ _ => materialize_eq_notUniform_iff⟩

/-- An empty list in an array: it has no two different elements, and is refused as a constant. -/
theorem listed_of_ofString_noElements : ∃ d, ofString "[dense<[]> : tensor<0xf32>]" = .ok (.array [d]) ∧
    d.listed? = some ([0], .f32, []) ∧ Uniform .f32 [] ∧
    ∀ limit, Kernel.materialize limit d = .error (.failed (.notUniform [0])) := by
  have hread : ofString "[dense<[]> : tensor<0xf32>]" = .ok (.array [.denseFloat ⟨[0], .f32, .elements []⟩]) := rfl
  obtain ⟨hvalues, hrefused⟩ := listed_of_ofString hread (.item List.mem_cons_self .self)
  have huniform := not_iff_comm.mp (hvalues _ _ _ rfl).2
  exact ⟨_, hread, rfl, huniform.mp (by decide), fun _ => (hrefused _ _).mpr ⟨_, _, rfl⟩⟩

end TensorEval.Attribute
