import TensorEval.Command.Directory
import TensorEval.Proofs.Bindings
import TensorEval.Proofs.Outcome

/-! Files that are written can be read: a new file takes the place of another one or of nothing, so every directory on the
way to it is still there. -/
namespace TensorEval.Command

def Place.slot : Place → Option String
  | file name _ => some name
  | vacant name => some name
  | directory _ => none

namespace Directory
variable {files after : Directory} {path text name : String} {place : Place}

/-- Whether a name leads to a directory: to no file, but to files further down. -/
def Leads (files : Directory) (name : String) : Prop :=
  files.get? name = none ∧ files.names.any ((name ++ "/").isPrefixOf ·) = true

private theorem placeAt_of_leads {parts : List String} (h : files.Leads ("/".intercalate parts)) :
    files.placeAt parts = .directory parts := by
  unfold placeAt
  dsimp only
  rw [h.1]
  exact if_pos h.2

private theorem placeAt_cases (files : Directory) (parts : List String) :
    (files.Leads ("/".intercalate parts) ∧ files.placeAt parts = .directory parts) ∨
      ¬files.Leads ("/".intercalate parts) ∧ (files.placeAt parts).slot = some ("/".intercalate parts) := by
  by_cases h : files.Leads ("/".intercalate parts)
  · exact Or.inl ⟨h, placeAt_of_leads h⟩
  · refine Or.inr ⟨h, ?_⟩
    unfold placeAt
    dsimp only
    split
    · rfl
    · next hnone =>
      rw [if_neg fun hany => h ⟨hnone, hany⟩]
      rfl

private theorem Leads.insert {name' : String} (h : files.Leads name) (hne : name ≠ name') (text : String) :
    Leads (files.insert name' text) name := by
  refine ⟨?_, ?_⟩
  · rw [Bindings.get?_insert, if_neg hne]
    exact h.1
  · obtain ⟨below, hbelow, hprefix⟩ := List.any_eq_true.mp h.2
    exact List.any_eq_true.mpr ⟨below, Bindings.mem_names_insert.mpr (Or.inr hbelow), hprefix⟩

/-- A step from a directory leads to a directory, also after any slot has been filled, or to a slot, and to its text once
that is filled. -/
private theorem follow_insert {parts : List String} {part : String}
    (h : files.follow (.directory parts) part = .ok place)
    (text : String) :
    (∃ parts', place = .directory parts' ∧
        ∀ name, ¬files.Leads name → follow (files.insert name text) (.directory parts) part = .ok (.directory parts')) ∨
      ∃ name, place.slot = some name ∧ ¬files.Leads name ∧
        follow (files.insert name text) (.directory parts) part = .ok (.file name text) := by
  by_cases hdot : part = "."
  · rw [follow, if_pos hdot] at h
    obtain rfl := Except.ok.inj h
    exact Or.inl ⟨parts, rfl, fun name _ => by rw [follow, if_pos hdot]⟩
  by_cases hdots : part = ".."
  · rw [follow, if_neg hdot, if_pos hdots] at h
    obtain rfl := Except.ok.inj h
    exact Or.inl ⟨above parts, rfl, fun name _ => by rw [follow, if_neg hdot, if_pos hdots]⟩
  by_cases hlong : part.utf8ByteSize > maxPartBytes
  · rw [follow, if_neg hdot, if_neg hdots, if_pos hlong] at h
    exact nomatch h
  rw [follow, if_neg hdot, if_neg hdots, if_neg hlong] at h
  obtain rfl := Except.ok.inj h
  have hstep (name : String) : follow (files.insert name text) (.directory parts) part =
      .ok (placeAt (files.insert name text) (parts ++ [part])) := by
    rw [follow, if_neg hdot, if_neg hdots, if_neg hlong]
  rcases placeAt_cases files (parts ++ [part]) with ⟨hleads, hplace⟩ | ⟨hleads, hslot⟩
  · refine Or.inl ⟨_, hplace, fun name hname => ?_⟩
    have hne : "/".intercalate (parts ++ [part]) ≠ name := fun heq => hname (heq ▸ hleads)
    rw [hstep, placeAt_of_leads (hleads.insert hne text)]
  · refine Or.inr ⟨_, hslot, hleads, ?_⟩
    rw [hstep, placeAt, Bindings.get?_insert, if_pos rfl]

private theorem eq_nil_of_slot {parts : List String} {last : Place} (hslot : place.slot = some name)
    (h : parts.foldlM files.follow place = .ok last) : parts = [] := by
  cases parts with
  | nil => rfl
  | cons part rest =>
    rw [List.foldlM_cons] at h
    obtain ⟨next, hnext, -⟩ := except_bind_eq_ok.mp h
    cases place with
    | directory _ => exact nomatch hslot
    | file _ _ => exact nomatch hnext
    | vacant _ => exact nomatch hnext

private theorem foldlM_follow_insert (text : String) {parts : List String} : ∀ {start : List String},
    parts.foldlM files.follow (.directory start) = .ok place → place.slot = some name →
      ¬files.Leads name ∧ parts.foldlM (follow (files.insert name text)) (.directory start) = .ok (.file name text) := by
  induction parts with
  | nil =>
    intro start h hslot
    obtain rfl := Except.ok.inj h
    exact nomatch hslot
  | cons part rest ih =>
    intro start h hslot
    rw [List.foldlM_cons] at h ⊢
    obtain ⟨next, hnext, hrest⟩ := except_bind_eq_ok.mp h
    rcases follow_insert hnext text with ⟨parts', rfl, hkeep⟩ | ⟨name', hslot', hleads, hfill⟩
    · obtain ⟨hleads, hend⟩ := ih hrest hslot
      rw [hkeep name hleads]
      exact ⟨hleads, hend⟩
    · obtain rfl := eq_nil_of_slot hslot' hrest
      obtain rfl := Except.ok.inj hrest
      obtain rfl := Option.some.inj (hslot'.symm.trans hslot)
      rw [hfill]
      exact ⟨hleads, rfl⟩

/-- A text is written to the slot to which its path leads. -/
theorem write_eq_ok : files.write path text = .ok after ↔
    path.endsWith "/" = false ∧ ∃ place name, files.resolve path = .ok place ∧ place.slot = some name ∧
      after = files.insert name text := by
  rw [write, except_bind_eq_ok]
  constructor
  · rintro ⟨place, hplace, h⟩
    cases hslash : path.endsWith "/" with
    | true =>
      rw [hslash] at h
      exact nomatch h
    | false =>
      rw [hslash] at h
      cases place with
      | directory parts => exact nomatch h
      | file name old => exact ⟨rfl, _, name, hplace, rfl, (Except.ok.inj h).symm⟩
      | vacant name => exact ⟨rfl, _, name, hplace, rfl, (Except.ok.inj h).symm⟩
  · rintro ⟨hslash, place, name, hplace, hslot, rfl⟩
    refine ⟨place, hplace, ?_⟩
    rw [hslash]
    cases place with
    | directory parts => exact nomatch hslot
    | file name old =>
      obtain rfl := Option.some.inj hslot
      rfl
    | vacant name =>
      obtain rfl := Option.some.inj hslot
      rfl

/-- What has been written is read. -/
theorem read_of_write (h : files.write path text = .ok after) : after.read path = .ok text := by
  obtain ⟨hslash, place, name, hplace, hslot, rfl⟩ := write_eq_ok.mp h
  have hresolve : resolve (files.insert name text) path = .ok (.file name text) := by
    unfold resolve at hplace ⊢
    split at hplace
    next => exact nomatch hplace
    next hshort =>
      rw [if_neg hshort]
      exact (foldlM_follow_insert text hplace hslot).2
  rw [read, hresolve, except_ok_bind]
  dsimp only
  rw [hslash]
  rfl

def Writable (files : Directory) (path : String) : Prop := ∃ text after, files.write path text = .ok after

/-- It does not matter which text that is. -/
theorem Writable.exists_write (h : files.Writable path) (text : String) : ∃ after, files.write path text = .ok after := by
  obtain ⟨other, after, hwrite⟩ := h
  obtain ⟨hslash, place, name, hplace, hslot, -⟩ := write_eq_ok.mp hwrite
  exact ⟨_, write_eq_ok.mpr ⟨hslash, place, name, hplace, hslot, rfl⟩⟩

/-- The empty path leads to no slot. -/
theorem Writable.ne_empty (h : files.Writable path) : path ≠ "" := by
  rintro rfl
  obtain ⟨text, after, hwrite⟩ := h
  obtain ⟨-, place, name, hplace, hslot, -⟩ := write_eq_ok.mp hwrite
  have hparts : pathParts "" = [] := by decide +kernel
  unfold resolve at hplace
  rw [if_neg (by decide), hparts] at hplace
  obtain rfl := Except.ok.inj hplace
  exact nomatch hslot

end Directory

end TensorEval.Command
