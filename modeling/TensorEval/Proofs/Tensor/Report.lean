import TensorEval.Proofs.Case.Reload
import TensorEval.Proofs.Element.Widening
import TensorEval.Proofs.Json.Layout
import TensorEval.Proofs.Tensor.Index
import TensorEval.Run.Report

/-! Reports of tensors as declared inputs. The elements of an input are doubles: truth values are no numbers, and integers
come back if a double holds them. -/
namespace TensorEval

open Json (ReadsBack Node)

namespace Carrier

private theorem not_isNaN_of_toDouble {c : Carrier} {v : c.Value} (h : (c.toDouble v).isFinite = true) :
    c.isNaN v = false := by
  cases c with
  | flag => rfl
  | signed width => rfl
  | floating F =>
    rw [toDouble] at h
    rw [isNaN]
    exact FloatWord.not_isNaN_of_isFinite (FloatWord.isFinite_of_widen h)

private theorem ofDouble_toDouble {F : FloatFormat} {v : FloatWord F} (h : v.widen.isFinite = true) :
    (floating F).ofDouble ((floating F).toDouble v) = v :=
  FloatWord.narrow_widen (FloatWord.isFinite_of_widen h)

section Integers
variable {width : Nat}

private theorem toInt_bounds (h : width ≤ 64) (v : BitVec width) :
    -(signedBound : Int) ≤ v.toInt ∧ v.toInt < signedBound := by
  have hpow : (2 : Int) ^ width ≤ 2 ^ 64 := by exact_mod_cast Nat.pow_le_pow_right (by decide) h
  have hlow := v.le_two_mul_toInt
  have hhigh := v.two_mul_toInt_lt
  unfold signedBound
  omega

private theorem ofInteger_truncate_iff (h : width ≤ 53 ∨ width = 64) (v : BitVec width) :
    (signed width).ofInteger (((signed width).toDouble v).truncate 64) = v ↔ FloatWord.KeepsWord v.toInt := by
  obtain ⟨hlow, hhigh⟩ := toInt_bounds (by omega) v
  rw [← FloatWord.truncate_ofInt_eq_iff hlow hhigh]
  change BitVec.ofInt width ((FloatWord.ofInt .binary64 v.toInt).truncate 64) = v ↔ _
  constructor
  · intro hback
    rcases h with hsmall | rfl
    · refine (FloatWord.truncate_ofInt_eq_iff hlow hhigh).mpr (Or.inr ?_)
      exact FloatWord.fitsSignificand_of_natAbs_le (natAbs_toInt_le (Nat.le_succ_of_le hsmall) v)
    · obtain ⟨hleast, hmost⟩ := FloatWord.truncate_bounds (FloatWord.ofInt .binary64 v.toInt)
      have htoInt := congrArg BitVec.toInt hback
      unfold signedBound at hleast hmost
      rwa [BitVec.toInt_ofInt_eq_self (by decide) (by omega) (by omega)] at htoInt
  · intro hback
    rw [hback, BitVec.ofInt_toInt]

end Integers

end Carrier

namespace Element
variable {t : ElementType} {v : Element t}

private theorem readDouble_json (ht : t ≠ .i1) (hfinite : (t.carrier.toDouble v).isFinite = true)
    (hback : ∀ x, t.carrier.json v = .float x → ReadsBack x) :
    (t.carrier.json v).node.readDouble = .ok (t.carrier.toDouble v) := by
  have hinteger {width : Nat} (h : width ≤ 64) (v : BitVec width) :
      (Json.integer v.toInt).node.readDouble = .ok (.ofInt .binary64 v.toInt) := by
    obtain ⟨hlow, hhigh⟩ := Carrier.toInt_bounds h v
    exact Json.readDouble_integer hlow (Int.lt_trans hhigh (by decide))
  cases t with
  | i1 => exact absurd rfl ht
  | i8 | i16 | i32 | i64 => exact hinteger (by decide) v
  | f16 | bf16 | f32 | f64 => exact Json.readDouble_node hfinite (hback _ rfl)

theorem ofNumber_of_not_isFloat (h : t.isFloat = false) (x : Double) :
    ofNumber t x = t.carrier.ofInteger (x.truncate 64) := if_neg (h ▸ Bool.false_ne_true)

/-- An element that is no truth value is what an input makes of its double, unless it is an integer that a double does
not hold. -/
private theorem ofNumber_toDouble_iff (ht : t ≠ .i1) (hfinite : (t.carrier.toDouble v).isFinite = true) :
    ofNumber t (t.carrier.toDouble v) = v ↔ ∀ n, t.carrier.json v = .integer n → FloatWord.KeepsWord n := by
  have hinteger (m : Int) : FloatWord.KeepsWord m ↔ ∀ n, Json.integer m = .integer n → FloatWord.KeepsWord n := by simp
  have hfloat (x : Double) : ∀ n, Json.float x = .integer n → FloatWord.KeepsWord n := nofun
  unfold ofNumber
  cases t with
  | i1 => exact absurd rfl ht
  | i8 | i16 | i32 | i64 =>
    rw [if_neg (by decide)]
    exact (Carrier.ofInteger_truncate_iff (by decide) v).trans (hinteger v.toInt)
  | f16 | bf16 | f32 | f64 =>
    rw [if_pos (by decide)]
    exact iff_of_true (Carrier.ofDouble_toDouble hfinite) (hfloat v.widen)

end Element

/-- What a report can hold: a tensor that has storage, whose numbers are finite and are read back as they are written. -/
structure Tensor.Reportable (x : Tensor) : Prop where
  stored : x.shape.Allocatable
  finite : ∀ v ∈ x.toDoubles, v.isFinite = true
  readsBack : ∀ v, Json.float v ∈ x.jsonValues → ReadsBack v

def Tensor.throughDoubles (x : Tensor) : Tensor :=
  ⟨x.type, x.shape, x.toDoubles.map (Element.ofNumber x.type), by simp [toDoubles, x.length_elements]⟩

theorem Tensor.ofNumbers_eq_ok (name : String) {shape : Shape} (type : ElementType) {numbers : List Double}
    (hstored : shape.Allocatable) (hl : numbers.length = shape.size) :
    ofNumbers name shape type numbers =
      .ok ⟨type, shape, numbers.map (Element.ofNumber type), (List.length_map _).trans hl⟩ := by
  have hcount := hstored.elementCount_eq
  unfold ofNumbers
  split
  next hnone => exact absurd (hnone.symm.trans hcount) (Option.some_ne_none _).symm
  next hsome =>
    obtain rfl := Option.some.inj (hsome.symm.trans hcount)
    rw [dif_pos hl, if_pos hstored]

namespace Input
variable {x : Tensor}

theorem ofText_report (x : Tensor) (depth : Nat) :
    ofText (String.ofList (x.json.prettyAt depth)) = read x.json.node := Json.readText_pretty _ _ _

/-- A type, a shape and values in an object are read as an input that lists the values. -/
theorem read_members (type : ElementType) {shape : Shape} (hshape : ∀ d ∈ shape, d < wordBound) {value : Json}
    {values : List Double} (hvalues : Node.readList Node.readDouble value.node = .ok values) :
    read (Json.object [("data_type", .string type.name), ("shape", shape.json), ("values", value)]).node =
      .ok ⟨type, shape, some values, none⟩ := by
  have hnull : value.node ≠ .null := by
    intro h
    rw [h] at hvalues
    exact nomatch hvalues
  have hfields : (Json.object [("data_type", .string type.name), ("shape", shape.json), ("values", value)]).node.readRecord
      fields ⟨none, none, none, none⟩ = .ok ⟨some type, some shape, some (some values), none⟩ := by
    change (Json.memberNodes _).readFields fields _ = _
    refine (Json.readFields_keep rfl rfl (ElementType.read_node type) _).trans ?_
    refine (Json.readFields_keep rfl rfl (readShape_node hshape) _).trans ?_
    refine (Json.readFields_keep rfl rfl (Json.readOptional_node hnull hvalues) []).trans ?_
    rfl
  rw [read, hfields]
  rfl

private theorem read_report (hstored : x.shape.Allocatable) {values : List Double}
    (hvalues : Node.readList Node.readDouble (Json.array x.jsonValues).node = .ok values) :
    read x.json.node = .ok ⟨x.type, x.shape, some values, none⟩ :=
  read_members x.type (fun _ hd => Nat.lt_trans (hstored.dim_lt hd) (by decide)) hvalues

private theorem read_report_error (hstored : x.shape.Allocatable) {refusal : Refusal}
    (hvalues : Node.readList Node.readDouble (Json.array x.jsonValues).node = .error refusal) :
    read x.json.node = .error refusal := by
  have hshape : ∀ d ∈ x.shape, d < wordBound := fun d hd => Nat.lt_trans (hstored.dim_lt hd) (by decide)
  have hoptional : Node.readOptional (Node.readList Node.readDouble) (Json.array x.jsonValues).node =
      .error refusal := congrArg (Except.map some) hvalues
  have hfields : x.json.node.readRecord fields ⟨none, none, none, none⟩ = .error refusal := by
    change (Json.memberNodes _).readFields fields _ = _
    refine (Json.readFields_keep rfl rfl (ElementType.read_node x.type) _).trans ?_
    refine (Json.readFields_keep rfl rfl (readShape_node hshape) _).trans ?_
    exact Json.readFields_keep_error rfl rfl hoptional []
  rw [read, hfields]
  rfl

private theorem tensor_toDoubles (name : String) (hstored : x.shape.Allocatable) :
    tensor name ⟨x.type, x.shape, some x.toDoubles, none⟩ = .ok x.throughDoubles := by
  have hlength : x.toDoubles.length = x.shape.size := by rw [Tensor.toDoubles, List.length_map, x.length_elements]
  change Outcome.ofExcept (Tensor.ofNumbers name x.shape x.type x.toDoubles) = _
  rw [Tensor.ofNumbers_eq_ok name x.type hstored hlength]
  rfl

end Input

namespace Tensor
variable {x : Tensor}

private theorem sameBits_throughDoubles_iff (htype : x.type = .i1 → x.elements = [])
    (hfinite : ∀ v ∈ x.toDoubles, v.isFinite = true) :
    x.throughDoubles.sameBits x = true ↔ ∀ n, Json.integer n ∈ x.jsonValues → FloatWord.KeepsWord n := by
  have helement (v : Element x.type) (hv : v ∈ x.elements) :
      Element.ofNumber x.type (x.type.carrier.toDouble v) = v ↔
        ∀ n, x.type.carrier.json v = .integer n → FloatWord.KeepsWord n := by
    refine Element.ofNumber_toDouble_iff (fun h => ?_) (hfinite _ (List.mem_map_of_mem hv))
    rw [htype h] at hv
    exact absurd hv List.not_mem_nil
  have hnan : ∀ v ∈ x.elements, x.type.carrier.isNaN v = false :=
    fun v hv => Carrier.not_isNaN_of_toDouble (hfinite _ (List.mem_map_of_mem hv))
  have hmap : x.toDoubles.map (Element.ofNumber x.type) = x.elements ↔
      ∀ v ∈ x.elements, Element.ofNumber x.type (x.type.carrier.toDouble v) = v := by
    rw [toDoubles, List.map_map]
    simpa using List.map_inj_left (f := Element.ofNumber x.type ∘ x.type.carrier.toDouble) (g := id) (l := x.elements)
  rw [throughDoubles, sameBits_mk_iff_eq _ x.length_elements hnan, hmap]
  constructor
  · intro h n hn
    obtain ⟨v, hv, hjson⟩ := List.mem_map.mp hn
    exact (helement v hv).mp (h v hv) n hjson
  · intro h v hv
    exact (helement v hv).mpr fun n hn => h n (hn ▸ List.mem_map_of_mem hv)

private theorem readValues_flags (htype : x.type = .i1) (hne : x.elements ≠ []) :
    Node.readList Node.readDouble (Json.array x.jsonValues).node = .error .unexpected := by
  obtain ⟨type, shape, elements, _⟩ := x
  subst htype
  cases elements with
  | nil => exact absurd rfl hne
  | cons v rest => rfl

private theorem readValues_report (h : x.Reportable) (htype : x.type = .i1 → x.elements = []) :
    Node.readList Node.readDouble (Json.array x.jsonValues).node = .ok x.toDoubles := by
  refine Json.readList_node fun v hv => ?_
  have ht : x.type ≠ .i1 := fun hflag => by
    rw [htype hflag] at hv
    exact absurd hv List.not_mem_nil
  refine Element.readDouble_json ht (h.finite _ (List.mem_map_of_mem hv)) fun d hd => h.readsBack d ?_
  exact hd ▸ List.mem_map_of_mem hv

/-- The report of a tensor declares the same tensor, unless it lists truth values or integers that doubles do not keep. -/
theorem fed_back_iff (h : x.Reportable) (name : String) (depth : Nat) :
    (∃ input y, Input.ofText (String.ofList (x.json.prettyAt depth)) = .ok input ∧ input.tensor name = .ok y ∧
        y.sameBits x = true) ↔
      (x.type = .i1 → x.elements = []) ∧ ∀ n, Json.integer n ∈ x.jsonValues → FloatWord.KeepsWord n := by
  rw [Input.ofText_report]
  by_cases htype : x.type = .i1 → x.elements = []
  · have htensor := Input.tensor_toDoubles name h.stored
    rw [Input.read_report h.stored (readValues_report h htype), ← sameBits_throughDoubles_iff htype h.finite]
    constructor
    · rintro ⟨input, y, hinput, hy, hsame⟩
      obtain rfl := Except.ok.inj hinput
      obtain rfl := Except.ok.inj (htensor.symm.trans hy)
      exact ⟨htype, hsame⟩
    · rintro ⟨-, hsame⟩
      exact ⟨_, _, rfl, htensor, hsame⟩
  · have hflags : x.type = .i1 ∧ x.elements ≠ [] := by simpa using htype
    rw [Input.read_report_error h.stored (readValues_flags hflags.1 hflags.2)]
    refine iff_of_false ?_ fun hnone => htype hnone.1
    rintro ⟨input, y, hinput, -⟩
    exact nomatch hinput

/-- Words that a double keeps: a power of two, a negative number, and the largest word. -/
def keptWords : Tensor :=
  ⟨.i64, [3], [BitVec.ofInt 64 1152921504606846976, BitVec.ofInt 64 (-3), BitVec.ofInt 64 9223372036854775807], rfl⟩

/-- A negative zero and the `bfloat16` number next to a tenth. -/
def smallNumbers : Tensor := ⟨.bf16, [2, 1], [FloatWord.ofBits _ 0x8000, FloatWord.ofBits _ 0x3DCD], rfl⟩

private theorem reportable_of_all {x : Tensor} (hstored : x.shape.Allocatable)
    (hfinite : x.toDoubles.all FloatWord.isFinite = true)
    (hback : (x.jsonValues.all fun value => match value with | .float v => decide (ReadsBack v) | _ => true) = true) :
    x.Reportable :=
  ⟨hstored, List.all_eq_true.mp hfinite, fun _ hv => of_decide_eq_true (List.all_eq_true.mp hback _ hv)⟩

theorem fed_back_keptWords_smallNumbers :
    (∃ input y, Input.ofText (String.ofList (keptWords.json.prettyAt 1)) = .ok input ∧ input.tensor "x" = .ok y ∧
      y.sameBits keptWords = true) ∧
    ∃ input y, Input.ofText (String.ofList (smallNumbers.json.prettyAt 1)) = .ok input ∧ input.tensor "y" = .ok y ∧
      y.sameBits smallNumbers = true := by
  have hwords : keptWords.Reportable := reportable_of_all (by decide) (by decide +kernel) (by decide +kernel)
  have hnumbers : smallNumbers.Reportable := reportable_of_all (by decide) (by decide +kernel) (by decide +kernel)
  refine ⟨(fed_back_iff hwords "x" 1).mpr ⟨nofun, ?_⟩, (fed_back_iff hnumbers "y" 1).mpr ⟨nofun, ?_⟩⟩
  · intro n hn
    have hvalues : keptWords.jsonValues =
        [.integer 1152921504606846976, .integer (-3), .integer 9223372036854775807] := rfl
    rw [hvalues] at hn
    obtain rfl | rfl | rfl : n = 1152921504606846976 ∨ n = -3 ∨ n = 9223372036854775807 := by simpa using hn
    · exact Or.inr ⟨1, 60, by decide, rfl⟩
    · exact Or.inr ⟨3, 0, by decide, rfl⟩
    · exact Or.inl rfl
  · intro n hn
    have hvalues : smallNumbers.jsonValues =
        [.float (FloatWord.ofBits .bfloat16 0x8000).widen, .float (FloatWord.ofBits .bfloat16 0x3DCD).widen] := rfl
    rw [hvalues] at hn
    exact absurd hn (by simp)

def singleFlag : Tensor := ⟨.i1, [1], [true], rfl⟩

/-- The least positive word that no double holds. -/
def longWord : Tensor := ⟨.i64, [1], [BitVec.ofInt 64 9007199254740993], rfl⟩

theorem not_fed_back_singleFlag_longWord :
    (singleFlag.Reportable ∧ Input.ofText (String.ofList (singleFlag.json.prettyAt 1)) = .error .unexpected) ∧
    longWord.Reportable ∧ ∃ input y, Input.ofText (String.ofList (longWord.json.prettyAt 1)) = .ok input ∧
      input.tensor "x" = .ok y ∧ y.sameBits longWord = false := by
  have hflag : singleFlag.Reportable := reportable_of_all (by decide) (by decide +kernel) (by decide +kernel)
  have hword : longWord.Reportable := reportable_of_all (by decide) (by decide +kernel) (by decide +kernel)
  refine ⟨⟨hflag, ?_⟩, hword, _, _, ?_, Input.tensor_toDoubles "x" hword.stored, by decide +kernel⟩
  · rw [Input.ofText_report]
    exact Input.read_report_error hflag.stored (readValues_flags rfl (List.cons_ne_nil _ _))
  · rw [Input.ofText_report]
    exact Input.read_report hword.stored (readValues_report hword nofun)

end Tensor

end TensorEval
