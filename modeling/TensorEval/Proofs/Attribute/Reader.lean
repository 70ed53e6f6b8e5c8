import TensorEval.Proofs.Attribute.Splitting
import TensorEval.Proofs.Outcome

/-! Reading without a bound on the nesting: the bound that the reader passes along is always large enough, so a text is
read by its outer form and the items of an array are read on their own. -/
namespace TensorEval.Attribute

inductive Form where
  | empty
  | unit
  | quoted (body : List Char)
  | dense (body type : List Char)
  | array (inner : List Char)
  | unterminated
  | plain

/-- The form of a text, in the order in which the reader tries them. -/
def Form.of (cs : List Char) : Form :=
  if cs = [] then empty
  else if cs = "unit".toList then unit
  else match quotedBody cs with
    | some body => quoted body
    | none =>
      match denseParts cs with
      | some (body, type) => dense body type
      | none =>
        match afterStart ['['] cs with
        | some rest =>
          match beforeLast ']' rest with
          | some inner => array inner
          | none => unterminated
        | none => plain

def pieces (inner : List Char) : List (List Char) := (splitItems inner).filter fun item => Text.trim item ≠ []

private theorem readWithin_succ (depth : Nat) (cs : List Char) :
    readWithin (depth + 1) cs =
      match Form.of (Text.trim cs) with
      | .empty => .error ⟨String.ofList cs, .empty⟩
      | .unit => .ok unit
      | .quoted body => .ok (string (String.ofList (Text.unescape body)))
      | .dense body type => (readDenseParts body type).mapError fun fault => ⟨String.ofList cs, fault⟩
      | .array inner => do
        let items ← (pieces inner).mapM (readWithin depth)
        return array items
      | .unterminated => .error ⟨String.ofList cs, .unterminatedArray⟩
      | .plain => (readPlain (Text.trim cs)).mapError fun fault => ⟨String.ofList cs, fault⟩ := by
  rw [readWithin]
  generalize Text.trim cs = trimmed
  unfold Form.of
  by_cases hempty : trimmed = []
  · simp only [if_pos hempty]
    rfl
  by_cases hunit : trimmed = "unit".toList
  · simp only [if_neg hempty, if_pos hunit]
  simp only [if_neg hempty, if_neg hunit]
  cases quotedBody trimmed with
  | some body => rfl
  | none =>
    cases denseParts trimmed with
    | some parts => rfl
    | none =>
      cases afterStart ['['] trimmed with
      | none => rfl
      | some rest =>
        dsimp only
        cases beforeLast ']' rest with
        | none => rfl
        | some inner => rfl

theorem afterStart_eq_some {start cs rest : List Char} (h : afterStart start cs = some rest) : cs = start ++ rest := by
  induction start generalizing cs with
  | nil => exact Option.some.inj h
  | cons d ds ih =>
    cases cs with
    | nil => exact nomatch h
    | cons c cs =>
      rw [afterStart] at h
      split at h
      next hd => rw [hd, ih h, List.cons_append]
      next => exact nomatch h

private theorem length_le_of_afterStart {start cs rest : List Char} (h : afterStart start cs = some rest) :
    rest.length ≤ cs.length := by
  rw [afterStart_eq_some h, List.length_append]
  exact Nat.le_add_left _ _

theorem afterStart_append (start rest : List Char) : afterStart start (start ++ rest) = some rest := by
  induction start with
  | nil => rfl
  | cons d ds ih => rw [List.cons_append, afterStart, if_pos rfl, ih]

theorem beforeLast_eq_some {last : Char} {cs init : List Char} (h : beforeLast last cs = some init) :
    cs = init ++ [last] := by
  rw [beforeLast] at h
  split at h
  next hlast =>
    obtain rfl := Option.some.inj h
    exact (List.dropLast_append_getLast? last hlast).symm
  next => exact nomatch h

theorem beforeLast_append (last : Char) (init : List Char) : beforeLast last (init ++ [last]) = some init := by
  rw [beforeLast, if_pos List.getLast?_concat, List.dropLast_concat]

theorem eq_of_form_array {cs inner : List Char} (h : Form.of cs = .array inner) : cs = '[' :: inner ++ [']'] := by
  unfold Form.of at h
  split at h
  · exact nomatch h
  · split at h
    · exact nomatch h
    · split at h
      · exact nomatch h
      · split at h
        · exact nomatch h
        · split at h
          next rest hstart =>
            split at h
            next inner' hlast =>
              obtain rfl := Form.array.inj h
              rw [afterStart_eq_some hstart, beforeLast_eq_some hlast]
              rfl
            next => exact nomatch h
          next => exact nomatch h

/-- The body of a dense literal is a part of it. -/
theorem length_le_of_denseParts {cs body type : List Char} (h : denseParts cs = some (body, type)) :
    body.length ≤ cs.length := by
  unfold denseParts at h
  obtain ⟨rest, hrest, h⟩ := Option.bind_eq_some_iff.mp h
  obtain ⟨reversed, hreversed, h⟩ := Option.bind_eq_some_iff.mp h
  obtain ⟨before, hbefore, h⟩ := Option.bind_eq_some_iff.mp h
  obtain ⟨word, hword, h⟩ := Option.bind_eq_some_iff.mp h
  obtain ⟨colon, hcolon, h⟩ := Option.bind_eq_some_iff.mp h
  obtain ⟨inner, hinner, h⟩ := Option.bind_eq_some_iff.mp h
  obtain ⟨rfl, -⟩ := Prod.mk.inj (Option.some.inj h)
  have hdrop (p : Char → Bool) (cs : List Char) : (cs.dropWhile p).length ≤ cs.length := (List.dropWhile_sublist p).length_le
  have hwordlen : word.length ≤ before.length := by
    cases htensor : afterStart "tensor".toList.reverse before with
    | some found =>
      rw [htensor] at hword
      obtain rfl := Option.some.inj hword
      exact length_le_of_afterStart htensor
    | none =>
      rw [htensor] at hword
      exact length_le_of_afterStart hword
  calc inner.reverse.length
    _ = inner.length := List.length_reverse
    _ ≤ colon.length := Nat.le_trans (length_le_of_afterStart hinner) (hdrop _ _)
    _ ≤ word.length := Nat.le_trans (length_le_of_afterStart hcolon) (hdrop _ _)
    _ ≤ before.length := hwordlen
    _ ≤ reversed.length := Nat.le_trans (length_le_of_afterStart hbefore) (hdrop _ _)
    _ ≤ rest.reverse.length := length_le_of_afterStart hreversed
    _ = rest.length := List.length_reverse
    _ ≤ cs.length := length_le_of_afterStart hrest

theorem denseParts_of_form {cs body type : List Char} (h : Form.of cs = .dense body type) :
    denseParts cs = some (body, type) := by
  unfold Form.of at h
  split at h
  · exact nomatch h
  · split at h
    · exact nomatch h
    · split at h
      · exact nomatch h
      · split at h
        next hparts =>
          obtain ⟨rfl, rfl⟩ := Form.dense.inj h
          exact hparts
        next =>
          split at h
          · split at h <;> exact nomatch h
          · exact nomatch h

private theorem length_le_length_joined {p : List Char} {ps : List (List Char)} (h : p ∈ ps) :
    p.length ≤ (joined ps).length := by
  cases ps with
  | nil => exact absurd h List.not_mem_nil
  | cons q ps =>
    rw [joined, List.length_append]
    rcases List.mem_cons.mp h with rfl | h
    · exact Nat.le_add_right _ _
    · have hsub : (',' :: p).length ≤ (ps.flatMap fun q => ',' :: q).length :=
        (List.sublist_flatten_of_mem (List.mem_map_of_mem h)).length_le
      rw [List.length_cons] at hsub
      omega

/-- The items of an array are shorter than the array. -/
theorem length_lt_of_mem_pieces {cs inner p : List Char} (hform : Form.of (Text.trim cs) = .array inner)
    (hp : p ∈ pieces inner) : p.length < cs.length := by
  have hlen := congrArg List.length (eq_of_form_array hform)
  have htrim := Text.length_trim_le cs
  have hpiece := length_le_length_joined (List.mem_of_mem_filter hp)
  have hinner : joined (splitItems inner) = inner := joined_splitFrom Nesting.top inner
  rw [hinner] at hpiece
  simp only [List.length_append, List.length_cons, List.length_nil] at hlen
  omega

/-- Every bound above the length of the text gives the same answer. -/
theorem readWithin_eq {m n : Nat} {cs : List Char} (hm : cs.length < m) (hn : cs.length < n) :
    readWithin m cs = readWithin n cs := by
  induction m generalizing n cs with
  | zero => exact absurd hm (Nat.not_lt_zero _)
  | succ m ih =>
    cases n with
    | zero => exact absurd hn (Nat.not_lt_zero _)
    | succ n =>
      rw [readWithin_succ, readWithin_succ]
      split
      case h_5 inner hform =>
        have hitems : (pieces inner).mapM (readWithin m) = (pieces inner).mapM (readWithin n) := by
          apply except_mapM_congr
          intro p hp
          have hlt := length_lt_of_mem_pieces hform hp
          exact ih (by omega) (by omega)
        rw [hitems]
      all_goals rfl

/-- How a text is read, by its form. The items of an array are read like texts of their own. -/
inductive Reads (cs : List Char) : Attribute → Prop where
  | unit (hform : Form.of (Text.trim cs) = .unit) : Reads cs .unit
  | string {body : List Char} (hform : Form.of (Text.trim cs) = .quoted body) :
    Reads cs (.string (String.ofList (Text.unescape body)))
  | dense {body type : List Char} {a : Attribute} (hform : Form.of (Text.trim cs) = .dense body type)
    (hread : readDenseParts body type = .ok a) : Reads cs a
  | array {inner : List Char} {items : List Attribute} (hform : Form.of (Text.trim cs) = .array inner)
    (hitems : List.Forall₂ (fun piece item => read piece = .ok item) (pieces inner) items) : Reads cs (.array items)
  | plain {a : Attribute} (hform : Form.of (Text.trim cs) = .plain) (hread : readPlain (Text.trim cs) = .ok a) :
    Reads cs a

private theorem mapM_readWithin {cs inner : List Char} (hform : Form.of (Text.trim cs) = .array inner) :
    (pieces inner).mapM (readWithin cs.length) = (pieces inner).mapM read := by
  apply except_mapM_congr
  intro p hp
  exact readWithin_eq (length_lt_of_mem_pieces hform hp) (Nat.lt_succ_self _)

theorem read_eq_ok_iff {cs : List Char} {a : Attribute} : read cs = .ok a ↔ Reads cs a := by
  constructor
  · intro h
    rw [read, readWithin_succ] at h
    split at h
    next => exact nomatch h
    next hform =>
      obtain rfl := Except.ok.inj h
      exact Reads.unit hform
    next hform =>
      obtain rfl := Except.ok.inj h
      exact Reads.string hform
    next hform => exact Reads.dense hform (mapError_eq_ok.mp h)
    next inner hform =>
      rw [mapM_readWithin hform] at h
      obtain ⟨items, hitems, h⟩ := except_bind_eq_ok.mp h
      obtain rfl := Except.ok.inj h
      exact Reads.array hform (except_mapM_eq_ok.mp hitems)
    next => exact nomatch h
    next hform => exact Reads.plain hform (mapError_eq_ok.mp h)
  · intro h
    rw [read, readWithin_succ]
    cases h with
    | unit hform => rw [hform]
    | string hform => rw [hform]
    | dense hform hread =>
      rw [hform]
      exact mapError_eq_ok.mpr hread
    | array hform hitems =>
      rw [hform]
      dsimp only
      rw [mapM_readWithin hform, except_mapM_eq_ok.mpr hitems]
      rfl
    | plain hform hread =>
      rw [hform]
      exact mapError_eq_ok.mpr hread

/-- A dense literal is read by its body and its type. -/
theorem read_dense_iff {cs body type : List Char} {a : Attribute} (hform : Form.of (Text.trim cs) = .dense body type) :
    read cs = .ok a ↔ readDenseParts body type = .ok a := by
  rw [read, readWithin_succ, hform]
  exact mapError_eq_ok

theorem read_plain_iff {cs : List Char} {a : Attribute} (hform : Form.of (Text.trim cs) = .plain) :
    read cs = .ok a ↔ readPlain (Text.trim cs) = .ok a := by
  rw [read, readWithin_succ, hform]
  exact mapError_eq_ok

/-- Blanks around a text do not change what it is read as. -/
theorem read_of_trim_eq {cs ds : List Char} {a : Attribute} (htrim : Text.trim cs = Text.trim ds)
    (h : read cs = .ok a) : read ds = .ok a := by
  rw [read_eq_ok_iff] at h ⊢
  cases h with
  | unit hform => exact Reads.unit (htrim ▸ hform)
  | string hform => exact Reads.string (htrim ▸ hform)
  | dense hform hread => exact Reads.dense (htrim ▸ hform) hread
  | array hform hitems => exact Reads.array (htrim ▸ hform) hitems
  | plain hform hread => exact Reads.plain (htrim ▸ hform) (htrim ▸ hread)

theorem trim_ne_nil_of_read {cs : List Char} {a : Attribute} (h : read cs = .ok a) : Text.trim cs ≠ [] := by
  intro hnil
  have hform : Form.of (Text.trim cs) = .empty := by
    rw [hnil]
    rfl
  rw [read, readWithin_succ, hform] at h
  exact nomatch h

end TensorEval.Attribute
