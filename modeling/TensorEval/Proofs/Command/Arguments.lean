import TensorEval.Command.Arguments
import TensorEval.Proofs.Outcome

/-! Where the report is written to is asked for apart from everything else: in front of a command line without that option,
the option changes nothing else. -/
namespace TensorEval.Command

namespace Parts

def withOutput (path : String) (s : Parts) : Parts := { s with output := some path }

/-- Whether a step neither forgets the path of the report nor looks at it, unless the step itself gives one. -/
def IgnoresOutput (path : String) (f : Parts → Except Halt Parts) : Prop :=
  ∀ s s', f s = .ok s' → s'.output = .none → s.output = .none ∧ f (s.withOutput path) = .ok (s'.withOutput path)

variable {path : String}

theorem IgnoresOutput.bind {f g : Parts → Except Halt Parts} (hf : IgnoresOutput path f) (hg : IgnoresOutput path g) :
    IgnoresOutput path fun s => f s >>= g := by
  intro s s' h hnone
  obtain ⟨next, hnext, hlast⟩ := except_bind_eq_ok.mp h
  obtain ⟨hnone', hlast'⟩ := hg next s' hlast hnone
  obtain ⟨hnone'', hnext'⟩ := hf s next hnext hnone'
  refine ⟨hnone'', ?_⟩
  dsimp only
  rw [hnext', except_ok_bind, hlast']

private theorem ignoresOutput_givePath (case : String) : IgnoresOutput path (givePath · case) := by
  intro s s' h hnone
  dsimp only [givePath] at h
  split at h
  next => exact nomatch h
  next hguard =>
    obtain rfl := Except.ok.inj h
    exact ⟨hnone, if_neg hguard⟩

private theorem ignoresOutput_giveLimit (value : String) : IgnoresOutput path (giveLimit · value) := by
  intro s s' h hnone
  dsimp only [giveLimit] at h
  split at h
  next limit hlimit hword =>
    obtain rfl := Except.ok.inj h
    refine ⟨hnone, ?_⟩
    dsimp only [giveLimit, withOutput]
    rw [hlimit, hword]
  next => exact nomatch h

private theorem ignoresOutput_giveOutput (value : String) : IgnoresOutput path (giveOutput · value) := by
  intro s s' h hnone
  dsimp only [giveOutput] at h
  split at h
  next => exact nomatch h
  next =>
    obtain rfl := Except.ok.inj h
    exact nomatch hnone

private theorem ignoresOutput_giveFlag (name : String) : IgnoresOutput path (giveFlag · name) := by
  intro s s' h hnone
  dsimp only [giveFlag] at h ⊢
  split at h
  next hjson =>
    split at h
    next => exact nomatch h
    next hfirst =>
      obtain rfl := Except.ok.inj h
      exact ⟨hnone, by rw [if_pos hjson]; exact if_neg hfirst⟩
  next hjson =>
    rw [if_neg hjson]
    split at h
    next hskip =>
      split at h
      next => exact nomatch h
      next hfirst =>
        obtain rfl := Except.ok.inj h
        exact ⟨hnone, by rw [if_pos hskip]; exact if_neg hfirst⟩
    next =>
      split at h
      next => exact nomatch h
      next => split at h <;> exact nomatch h

private theorem ignoresOutput_valueOption {name : String} {give : Parts → String → Except Halt Parts}
    (h : valueOption name = some give) (value : String) : IgnoresOutput path (give · value) := by
  unfold valueOption at h
  split at h
  next =>
    obtain rfl := Option.some.inj h
    exact ignoresOutput_giveLimit value
  next =>
    split at h
    next =>
      obtain rfl := Option.some.inj h
      exact ignoresOutput_giveOutput value
    next => exact nomatch h

private theorem ignoresOutput_foldlM (cases : List String) : IgnoresOutput path (cases.foldlM givePath ·) := by
  induction cases with
  | nil =>
    intro s s' h hnone
    obtain rfl := Except.ok.inj h
    exact ⟨hnone, rfl⟩
  | cons case rest ih =>
    simp only [List.foldlM_cons]
    exact (ignoresOutput_givePath case).bind ih

/-- The induction is on the arguments: each of them is a step of its own, or an option with its value. -/
theorem ignoresOutput_readArguments : ∀ arguments, IgnoresOutput path (readArguments · arguments)
  | [] => fun s s' h hnone => by
    obtain rfl := Except.ok.inj h
    exact ⟨hnone, rfl⟩
  | argument :: rest => fun s s' h hnone => by
    dsimp only at h ⊢
    rw [readArguments] at h ⊢
    split at h
    next => exact ignoresOutput_foldlM rest s s' h hnone
    next cs _ _ =>
      generalize splitOption cs = option at h ⊢
      obtain ⟨name, value⟩ := option
      cases value with
      | some value =>
        dsimp only at h ⊢
        generalize hgive : valueOption name = give at h ⊢
        cases give with
        | none => exact nomatch h
        | some give =>
          exact ((ignoresOutput_valueOption hgive value).bind (ignoresOutput_readArguments rest)) s s' h hnone
      | none =>
        dsimp only at h ⊢
        generalize hgive : valueOption name = give at h ⊢
        cases give with
        | none => exact ((ignoresOutput_giveFlag name).bind (ignoresOutput_readArguments rest)) s s' h hnone
        | some give =>
          cases rest with
          | nil => exact nomatch h
          | cons value rest =>
            dsimp only at h ⊢
            split at h
            next => exact nomatch h
            next hvalue =>
              rw [if_neg hvalue]
              exact ((ignoresOutput_valueOption hgive value).bind (ignoresOutput_readArguments rest)) s s' h hnone
    next => exact nomatch h
    next => exact ((ignoresOutput_givePath argument).bind (ignoresOutput_readArguments rest)) s s' h hnone
  termination_by arguments => arguments.length

end Parts

def outputArgument (path : String) : String := "--output=" ++ path

private theorem readArguments_attached {s : Parts} {argument name value : String} {c : Char} {cs : List Char}
    {give : Parts → String → Except Halt Parts} (h : argument.toList = '-' :: '-' :: c :: cs)
    (hsplit : splitOption (c :: cs) = (name, some value)) (hgive : valueOption name = some give) (rest : List String) :
    readArguments s (argument :: rest) = give s value >>= (readArguments · rest) := by
  rw [readArguments]
  simp only [h, hsplit, hgive]

/-- In front of a command line that prints the report, the option sends it to a path. -/
theorem Request.ofArguments_output {arguments : List String} {r : Request} (h : ofArguments arguments = .ok r)
    (hnone : r.output = none) {path : String} (hpath : path ≠ "") :
    ofArguments (outputArgument path :: arguments) = .ok { r with output := some path } := by
  have hlist : (outputArgument path).toList = "--output=".toList ++ path.toList := String.toList_append
  have hsplit : splitOption ("output=".toList ++ path.toList) = ("output", some path) := by
    have hvalue : splitOption ("output=".toList ++ path.toList) = ("output", some (String.ofList path.toList)) := rfl
    rw [hvalue, String.ofList_toList]
  have hgive : Parts.giveOutput .none path = .ok (Parts.none.withOutput path) := if_neg (by simpa [Parts.none] using hpath)
  have hread : readArguments .none (outputArgument path :: arguments) =
      readArguments (Parts.none.withOutput path) arguments := by
    rw [readArguments_attached hlist hsplit rfl, hgive, except_ok_bind]
  obtain ⟨s, hs, hrequest⟩ := except_bind_eq_ok.mp h
  split at hrequest
  next case hcase =>
    obtain rfl := Except.ok.inj hrequest
    have hsent := (@Parts.ignoresOutput_readArguments path arguments .none s hs hnone).2
    dsimp only at hsent
    rw [ofArguments, hread, hsent, except_ok_bind]
    have hcase' : (s.withOutput path).path = some case := hcase
    rw [hcase']
    rfl
  next => exact nomatch hrequest

end TensorEval.Command
