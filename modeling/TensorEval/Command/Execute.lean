import TensorEval.Case.Reader
import TensorEval.Command.Arguments
import TensorEval.Command.Directory
import TensorEval.Run.Log
import TensorEval.Run.Report
/-!
The command: a case is read, checked and run, and its outputs are reported.
-/
namespace TensorEval.Command

inductive Ending where
  | done
  | failed (failure : Failure)
  /-- The storage of a shape cannot be addressed. -/
  | aborted (shape : Shape)
  /-- A report is still to be written to a file. -/
  | write (path text : String)
  deriving DecidableEq, Repr

/-- What a command has printed and logged, line by line, and how it ends. -/
structure Progress where
  printed : List String
  logged : List String
  ending : Ending
  deriving DecidableEq, Repr

structure Reply where
  status : Nat
  stdout : String
  stderr : String
  deriving DecidableEq, Repr

namespace Request

def namesCase (r : Request) : Bool := extension r.path = some "json"

def load (r : Request) (text : Except String String) : Except Failure Case :=
  if r.namesCase then
    match text with
    | .ok text => (Case.ofText text).mapError .refused
    | .error cause => .error (.unreadable r.path cause)
  else .error (.unsupportedFile r.path)

/-- Whether nothing but the JSON report is printed. -/
def quiet (r : Request) : Bool := r.json && r.output.isNone

def evaluator (r : Request) : Evaluator := .standard (r.limit.getD defaultLimit)

def check (r : Request) (c : Case) : Except Failure (List String) :=
  if r.skipValidation then .ok []
  else (c.validate r.evaluator.registry).map fun wiring =>
    if r.quiet then [] else wiring.lines r.path c

def evaluate (r : Request) (level : LogLevel) (printed : List String) (c : Case) : Progress :=
  let logged := r.evaluator.log level c
  match r.evaluator.run c with
  | .error (.failed failure) => ⟨printed, logged, .failed failure⟩
  | .error (.unaddressable shape) => ⟨printed, logged, .aborted shape⟩
  | .ok run =>
    match r.output with
    | some path => ⟨printed, logged, .write path run.report⟩
    | none =>
      if r.json then ⟨printed ++ [run.report], logged, .done⟩
      else ⟨printed ++ run.lines, logged, .done⟩

def process (r : Request) (level : LogLevel) (text : Except String String) : Progress :=
  match r.load text with
  | .error failure => ⟨[], [], .failed failure⟩
  | .ok c =>
    match r.check c with
    | .error failure => ⟨[], [], .failed failure⟩
    | .ok printed => r.evaluate level printed c

end Request

def unlines (lines : List String) : String := String.join (lines.map (· ++ "\n"))

namespace Progress

def succeed (p : Progress) (more : List String) : Reply :=
  ⟨0, unlines (p.printed ++ more), unlines p.logged⟩

def fail (p : Progress) (status : Nat) (message : String) : Reply :=
  ⟨status, unlines p.printed, unlines (p.logged ++ ["error: " ++ message])⟩

def finish (p : Progress) (written : Except String Unit) : Reply :=
  match p.ending with
  | .done => p.succeed []
  | .failed failure => p.fail 1 failure.message
  | .aborted shape => p.fail 101 s!"tensor of shape {shape.text} cannot be stored"
  | .write path _ =>
    match written with
    | .ok () => p.succeed [s!"Wrote reference outputs to `{path}`."]
    | .error cause => p.fail 1 (Failure.unreadable path cause).message

end Progress

def helpText : String := unlines [
  "Compute reference results for arith benchmark cases",
  "",
  "Usage: arith-ref [OPTIONS] <CASE>",
  "",
  "Arguments:",
  "  <CASE>  Path to a JSON case: inputs, operations and outputs",
  "",
  "Options:",
  "      --tensor-limit <TENSOR_LIMIT>  Optional override for the tensor byte length limit",
  "      --json                         Print outputs as a JSON object instead of text",
  "      --output <OUTPUT>              Write the JSON report to this path instead of stdout",
  "      --skip-validation              Run without the static ordering and arity checks",
  "  -h, --help                         Print help",
  "  -V, --version                      Print version"]

def Halt.reply : Halt → Reply
  | help => ⟨0, helpText, ""⟩
  | version => ⟨0, unlines ["arith-reference 0.1.0"], ""⟩
  | misuse => ⟨2, "", unlines ["error: the command line is not understood", "",
      "Usage: arith-ref [OPTIONS] <CASE>"]⟩

/-- A command in a directory: its reply, and the files after it. -/
def execute (arguments : List String) (level : LogLevel) (files : Directory) : Reply × Directory :=
  match Request.ofArguments arguments with
  | .error halt => (halt.reply, files)
  | .ok r =>
    let progress := r.process level ((files.read r.path).mapError PathFault.message)
    match progress.ending with
    | .write path text =>
      match files.write path text with
      | .ok files => (progress.finish (.ok ()), files)
      | .error fault => (progress.finish (.error fault.message), files)
    | _ => (progress.finish (.ok ()), files)

end TensorEval.Command
