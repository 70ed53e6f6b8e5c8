import TensorEval.Command.Execute
import TensorEval.Proofs.Command.Arguments
import TensorEval.Proofs.Command.Directory
import TensorEval.Proofs.Json.Layout
import TensorEval.Proofs.Run.Environment
import TensorEval.Proofs.Run.Replay

/-! Commands that report as JSON: what is printed is what is written to a file, and neither depends on how much is
logged. -/
namespace TensorEval

/-- The members of the report of a run: one for each name, with the value of that name. -/
def Run.members (run : Run) : List (String × Json) :=
  (Bindings.ofList run.outputs).entries.map fun (name, x) => (name, x.json)

private theorem Run.names_members (run : Run) : run.members.map Prod.fst = (Bindings.ofList run.outputs).names := by
  rw [members, List.map_map]
  rfl

private theorem Run.names_members_of_run {e : Evaluator} {c : Case} {run : Run} (h : e.run c = .ok run) :
    (run.members.map Prod.fst).Nodup ∧ ∀ name, name ∈ run.members.map Prod.fst ↔ name ∈ c.outputs := by
  obtain ⟨-, -, -, hcollect⟩ := Evaluator.run_eq_ok.mp h
  rw [names_members, ← (Evaluator.collect_eq_ok.mp hcollect).1]
  exact ⟨Bindings.names_nodup _, fun name => Bindings.mem_names_ofList⟩

namespace Command

namespace Request
variable {r : Request} {text : Except String String} {c : Case} {run : Run}

/-- Whether the case of a request is read, checked and run. -/
structure Completes (r : Request) (text : Except String String) (c : Case) (run : Run) : Prop where
  load : r.load text = .ok c
  check : ∃ printed, r.check c = .ok printed
  run : r.evaluator.run c = .ok run

private theorem Completes.redirect (h : r.Completes text c run) (json : Bool) (output : Option String) :
    Completes { r with json, output } text c run := by
  refine ⟨h.load, ?_, h.run⟩
  obtain ⟨printed, hprinted⟩ := h.check
  unfold Request.check at hprinted ⊢
  dsimp only at hprinted ⊢
  split at hprinted
  next hskip => exact ⟨[], if_pos hskip⟩
  next hskip =>
    obtain ⟨wiring, hwiring, -⟩ := except_map_eq_ok.mp hprinted
    exact ⟨_, (if_neg hskip).trans (except_map_eq_ok.mpr ⟨wiring, hwiring, rfl⟩)⟩

private theorem process_cases (r : Request) (level : LogLevel) (text : Except String String) :
    (∃ failure, (r.process level text).ending = .failed failure) ∨
      (∃ shape, (r.process level text).ending = .aborted shape) ∨ ∃ c run, r.Completes text c run := by
  unfold process
  split
  next failure _ => exact Or.inl ⟨failure, rfl⟩
  next c hload =>
    split
    next failure _ => exact Or.inl ⟨failure, rfl⟩
    next printed hcheck =>
      unfold evaluate
      dsimp only
      split
      next failure _ => exact Or.inl ⟨failure, rfl⟩
      next shape _ => exact Or.inr (Or.inl ⟨shape, rfl⟩)
      next run hrun => exact Or.inr (Or.inr ⟨c, run, hload, ⟨printed, hcheck⟩, hrun⟩)

private theorem Completes.process_eq (h : r.Completes text c run) (level : LogLevel) :
    ∃ printed, r.check c = .ok printed ∧ r.process level text =
      match r.output with
      | some path => ⟨printed, r.evaluator.log level c, .write path run.report⟩
      | none =>
        if r.json then ⟨printed ++ [run.report], r.evaluator.log level c, .done⟩
        else ⟨printed ++ run.lines, r.evaluator.log level c, .done⟩ := by
  obtain ⟨printed, hcheck⟩ := h.check
  refine ⟨printed, hcheck, ?_⟩
  unfold process
  rw [h.load]
  dsimp only
  rw [hcheck]
  dsimp only
  unfold evaluate
  dsimp only
  split
  next hfailed => exact nomatch h.run.symm.trans hfailed
  next haborted => exact nomatch h.run.symm.trans haborted
  next hrun =>
    obtain rfl := Except.ok.inj (h.run.symm.trans hrun)
    rfl

private theorem ending_of_output (h : r.Completes text c run) {path : String} (houtput : r.output = some path)
    (level : LogLevel) : (r.process level text).ending = .write path run.report := by
  obtain ⟨printed, -, hprocess⟩ := h.process_eq level
  rw [hprocess, houtput]

private theorem process_of_json (h : r.Completes text c run) (hjson : r.json = true) (houtput : r.output = none)
    (level : LogLevel) :
    (r.process level text).printed = [run.report] ∧ (r.process level text).ending = .done := by
  obtain ⟨printed, hcheck, hprocess⟩ := h.process_eq level
  have hquiet : r.quiet = true := by
    rw [quiet, hjson, houtput]
    rfl
  have hprinted : printed = [] := by
    unfold Request.check at hcheck
    split at hcheck
    next => exact (Except.ok.inj hcheck).symm
    next =>
      obtain ⟨wiring, -, hlines⟩ := except_map_eq_ok.mp hcheck
      exact hlines.symm
  rw [hprocess, houtput]
  dsimp only
  rw [if_pos hjson, hprinted]
  exact ⟨rfl, rfl⟩

private theorem process_level (r : Request) (level level' : LogLevel) (text : Except String String) :
    (r.process level' text).printed = (r.process level text).printed ∧
      (r.process level' text).ending = (r.process level text).ending := by
  unfold process
  split
  next => exact ⟨rfl, rfl⟩
  next =>
    split
    next => exact ⟨rfl, rfl⟩
    next =>
      unfold evaluate
      dsimp only
      split
      next => exact ⟨rfl, rfl⟩
      next => exact ⟨rfl, rfl⟩
      next =>
        split
        next => exact ⟨rfl, rfl⟩
        next => split <;> exact ⟨rfl, rfl⟩

def caseText (r : Request) (files : Directory) : Except String String :=
  (files.read r.path).mapError PathFault.message

end Request

private theorem unlines_singleton (line : String) : unlines [line] = line ++ "\n" := by
  rw [unlines, List.map_singleton, String.join, List.foldl_cons, List.foldl_nil, String.empty_append]

section Execute
variable {arguments : List String} {level : LogLevel} {files : Directory} {r : Request} {c : Case} {run : Run}

private theorem execute_done (hrequest : Request.ofArguments arguments = .ok r)
    (hending : (r.process level (r.caseText files)).ending = .done) :
    execute arguments level files = ((r.process level (r.caseText files)).succeed [], files) := by
  unfold Request.caseText at hending ⊢
  simp only [execute, hrequest, hending, Progress.finish]

private theorem execute_write (hrequest : Request.ofArguments arguments = .ok r) {path text : String}
    {after : Directory}
    (hending : (r.process level (r.caseText files)).ending = .write path text) (hwrite : files.write path text = .ok after) :
    execute arguments level files =
      ((r.process level (r.caseText files)).succeed [s!"Wrote reference outputs to `{path}`."], after) := by
  unfold Request.caseText at hending ⊢
  simp only [execute, hrequest, hending, hwrite, Progress.finish]

private theorem exists_completes (hrequest : Request.ofArguments arguments = .ok r)
    (hstatus : (execute arguments level files).1.status = 0) : ∃ c run, r.Completes (r.caseText files) c run := by
  rcases r.process_cases level (r.caseText files) with ⟨failure, hending⟩ | ⟨shape, hending⟩ | h
  case inr.inr => exact h
  all_goals
    unfold Request.caseText at hending
    simp only [execute, hrequest, hending, Progress.finish] at hstatus
    exact nomatch hstatus

private theorem files_of_status (hstatus : (execute arguments level files).1.status ≠ 0) :
    (execute arguments level files).2 = files := by
  unfold execute at hstatus ⊢
  split at hstatus
  next => rfl
  next r hrequest =>
    dsimp only at hstatus ⊢
    split at hstatus
    next path text hending =>
      split at hstatus
      next after hwrite =>
        refine absurd ?_ hstatus
        rw [Progress.finish, hending]
        rfl
      next => rfl
    next => rfl

private theorem finish_level {p p' : Progress} (hprinted : p'.printed = p.printed) (hending : p'.ending = p.ending)
    (written : Except String Unit) :
    (p'.finish written).stdout = (p.finish written).stdout ∧ (p'.finish written).status = (p.finish written).status := by
  unfold Progress.finish
  rw [hending]
  split
  · exact ⟨by rw [Progress.succeed, Progress.succeed, hprinted], rfl⟩
  · exact ⟨by rw [Progress.fail, Progress.fail, hprinted], rfl⟩
  · exact ⟨by rw [Progress.fail, Progress.fail, hprinted], rfl⟩
  · split
    · exact ⟨by rw [Progress.succeed, Progress.succeed, hprinted], rfl⟩
    · exact ⟨by rw [Progress.fail, Progress.fail, hprinted], rfl⟩

/-- What a command prints, how it ends and which files it leaves does not depend on how much is logged. -/
theorem execute_level (arguments : List String) (level level' : LogLevel) (files : Directory) :
    (execute arguments level' files).1.stdout = (execute arguments level files).1.stdout ∧
      (execute arguments level' files).1.status = (execute arguments level files).1.status ∧
      (execute arguments level' files).2 = (execute arguments level files).2 := by
  unfold execute
  split
  next => exact ⟨rfl, rfl, rfl⟩
  next r hrequest =>
    dsimp only
    obtain ⟨hprinted, hending⟩ := r.process_level level level' ((files.read r.path).mapError PathFault.message)
    have hfinish (written : Except String Unit) := finish_level hprinted hending written
    rw [hending]
    split
    next =>
      split
      next => exact ⟨(hfinish _).1, (hfinish _).2, rfl⟩
      next => exact ⟨(hfinish _).1, (hfinish _).2, rfl⟩
    next => exact ⟨(hfinish _).1, (hfinish _).2, rfl⟩

/-- Reports agree: where a command prints the report of a case as JSON, it prints an object with one member for each
output, and every command that writes that report to a file leaves the same text there. A command that does not succeed
leaves all files as they are, and how much is logged shows in the log only. -/
theorem execute_report (arguments : List String) (level : LogLevel) (files : Directory) :
    (∀ r, Request.ofArguments arguments = .ok r → r.json = true → r.output = none →
        (execute arguments level files).1.status = 0 →
      ∃ c members, r.load (r.caseText files) = .ok c ∧
        (members.map Prod.fst).Nodup ∧ (∀ name, name ∈ members.map Prod.fst ↔ name ∈ c.outputs) ∧
        Json.Node.ofText (Json.object members).toPretty.toList = ((Json.object members).node, false) ∧
        (execute arguments level files).1.stdout = (Json.object members).toPretty ++ "\n" ∧
        ∀ path, files.Writable path →
          Request.ofArguments (outputArgument path :: arguments) = .ok { r with output := some path } ∧
          ∀ arguments' level' json, Request.ofArguments arguments' = .ok { r with json, output := some path } →
            (execute arguments' level' files).1.status = 0 ∧
              (execute arguments' level' files).2.read path = .ok (Json.object members).toPretty) ∧
    ((execute arguments level files).1.status ≠ 0 → (execute arguments level files).2 = files) ∧
    ∀ level', (execute arguments level' files).1.stdout = (execute arguments level files).1.stdout ∧
      (execute arguments level' files).1.status = (execute arguments level files).1.status ∧
      (execute arguments level' files).2 = (execute arguments level files).2 := by
  refine ⟨fun r hrequest hjson hnone hstatus => ?_, files_of_status, fun level' => execute_level ..⟩
  obtain ⟨c, run, h⟩ := exists_completes hrequest hstatus
  obtain ⟨hnodup, hnames⟩ := Run.names_members_of_run h.run
  obtain ⟨hprinted, hending⟩ := Request.process_of_json h hjson hnone level
  refine ⟨c, run.members, h.load, hnodup, hnames, ?_, ?_, fun path hwritable => ⟨?_, ?_⟩⟩
  · rw [Json.toPretty, String.toList_ofList, Json.ofText_pretty]
  · rw [execute_done hrequest hending, Progress.succeed, hprinted, List.append_nil]
    exact unlines_singleton run.report
  · exact Request.ofArguments_output hrequest hnone hwritable.ne_empty
  · intro arguments' level' json hrequest'
    obtain ⟨after, hwrite⟩ := hwritable.exists_write run.report
    have hending' := Request.ending_of_output (h.redirect json (some path)) rfl level'
    rw [execute_write hrequest' hending' hwrite]
    exact ⟨rfl, Directory.read_of_write hwrite⟩

/-- A directory with a case that doubles its input and lists the result twice. -/
def doublingFiles : Directory := .ofList [("case.json",
  "\x7b\"inputs\":\x7b\"x\":\x7b\"data_type\":\"i8\",\"shape\":[2],\"values\":[1,2]\x7d\x7d," ++
  "\"operations\":[\x7b\"name\":\"arith.addi\",\"operands\":[\"x\",\"x\"],\"results\":[\"y\"]\x7d]," ++
  "\"outputs\":[\"y\",\"y\"]\x7d")]

theorem execute_report_doublingFiles :
    (∃ members, (execute ["case.json", "--json"] .off doublingFiles).1.stdout = (Json.object members).toPretty ++ "\n" ∧
      (execute ["--output", "out.json", "case.json"] .elements doublingFiles).2.read "out.json" =
        .ok (Json.object members).toPretty) ∧
    (execute ["case.json", "--output", "case.json/out"] .off doublingFiles).2 = doublingFiles := by
  have hwritable : doublingFiles.Writable "out.json" :=
    ⟨"", _, Directory.write_eq_ok.mpr ⟨by decide +kernel, .vacant "out.json", "out.json", by decide +kernel, rfl, rfl⟩⟩
  constructor
  · obtain ⟨c, members, -, -, -, -, hstdout, hwritten⟩ := (execute_report ["case.json", "--json"] .off doublingFiles).1
      ⟨"case.json", none, true, none, false⟩ rfl rfl rfl (by decide +kernel)
    have hsame := (hwritten "out.json" hwritable).2 ["--output", "out.json", "case.json"] .elements false rfl
    exact ⟨members, hstdout, hsame.2⟩
  · exact (execute_report ["case.json", "--output", "case.json/out"] .off doublingFiles).2.1 (by decide +kernel)

end Execute

end Command

end TensorEval
