import TensorEval.Command.Execute
/-!
The command line program.
-/
namespace TensorEval.Command

def faultText : IO.Error → String
  | .noFileOrDirectory .. => PathFault.missing.message
  | .inappropriateType _ _ details =>
    if details.toLower = "not a directory" then PathFault.notDirectory.message
    else PathFault.isDirectory.message
  | fault@(.invalidArgument _ _ details) =>
    if details.toLower.endsWith "name too long" then PathFault.tooLong.message
    else toString fault
  | fault => toString fault

def attempt {α : Type} (action : IO α) : IO (Except String α) := do
  match ← action.toBaseIO with
  | .ok value => return .ok value
  | .error fault => return .error (faultText fault)

def emit (reply : Reply) : IO UInt32 := do
  (← IO.getStdout).putStr reply.stdout
  (← IO.getStderr).putStr reply.stderr
  return reply.status.toUInt32

end TensorEval.Command

open TensorEval TensorEval.Command in
/-- The program: files are read and written around the pure command. -/
def main (arguments : List String) : IO UInt32 := do
  match Request.ofArguments arguments with
  | .error halt => emit halt.reply
  | .ok request =>
    let level := match ← IO.getEnv "ARITH_REF_DEBUG" with
      | some setting => LogLevel.ofSetting setting
      | none => .off
    let text ←
      if request.namesCase then attempt (IO.FS.readFile request.path) else pure (.error "")
    let progress := request.process level text
    let written ← match progress.ending with
      | .write path report => attempt (IO.FS.writeFile path report)
      | _ => pure (.ok ())
    emit (progress.finish written)
