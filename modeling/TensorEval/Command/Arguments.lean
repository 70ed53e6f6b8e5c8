import TensorEval.Text.Number
/-!
The command line: one case, and options in any order around it.
-/
namespace TensorEval.Command

structure Request where
  /-- The path of the case. -/
  path : String
  limit : Option Nat
  /-- Whether the outputs are printed as JSON. -/
  json : Bool
  /-- The path that the JSON report is written to. -/
  output : Option String
  skipValidation : Bool
  deriving DecidableEq, Repr

/-- Why a command line asks for no case. -/
inductive Halt where
  | help | version | misuse
  deriving DecidableEq, Repr

structure Parts where
  path : Option String
  limit : Option Nat
  json : Bool
  output : Option String
  skipValidation : Bool
  deriving DecidableEq, Repr

namespace Parts

def none : Parts := ⟨.none, .none, false, .none, false⟩

/-- The parts with the case given. There is one case, and its path is not empty. -/
def givePath (s : Parts) (path : String) : Except Halt Parts :=
  if s.path.isSome ∨ path = "" then .error .misuse else .ok { s with path := some path }

def giveLimit (s : Parts) (value : String) : Except Halt Parts :=
  match s.limit, Text.readWord value.toList with
  | .none, some limit => .ok { s with limit := some limit }
  | _, _ => .error .misuse

def giveOutput (s : Parts) (path : String) : Except Halt Parts :=
  if s.output.isSome ∨ path = "" then .error .misuse else .ok { s with output := some path }

def giveFlag (s : Parts) (name : String) : Except Halt Parts :=
  if name = "json" then
    if s.json then .error .misuse else .ok { s with json := true }
  else if name = "skip-validation" then
    if s.skipValidation then .error .misuse else .ok { s with skipValidation := true }
  else if name = "help" then .error .help
  else if name = "version" then .error .version
  else .error .misuse

end Parts

def valueOption (name : String) : Option (Parts → String → Except Halt Parts) :=
  if name = "tensor-limit" then some Parts.giveLimit
  else if name = "output" then some Parts.giveOutput
  else none

/-- Whether an argument is read as an option and so cannot be the value of the one before it. A
lone dash is not. -/
def isOption (argument : String) : Bool :=
  match argument.toList with
  | '-' :: _ :: _ => true
  | _ => false

def splitOption (cs : List Char) : String × Option String :=
  (String.ofList (cs.takeWhile (· ≠ '=')),
    match cs.dropWhile (· ≠ '=') with
    | [] => none
    | _ :: value => some (String.ofList value))

/-- A cluster of short options, of which only the first one counts. -/
def shortOption (letter : Char) : Halt :=
  if letter = 'h' then .help else if letter = 'V' then .version else .misuse

/-- The parts of a command line, read from the left. The first problem or the first wish for help
decides. -/
def readArguments (s : Parts) : List String → Except Halt Parts
  | [] => .ok s
  | argument :: rest =>
    match argument.toList with
    | ['-', '-'] => rest.foldlM Parts.givePath s
    | '-' :: '-' :: cs =>
      match splitOption cs with
      | (name, some value) =>
        match valueOption name with
        | some give => do readArguments (← give s value) rest
        | none => .error .misuse
      | (name, none) =>
        match valueOption name, rest with
        | some give, value :: rest =>
          if isOption value then .error .misuse
          else do readArguments (← give s value) rest
        | some _, [] => .error .misuse
        | none, rest => do readArguments (← s.giveFlag name) rest
    | '-' :: c :: _ => .error (shortOption c)
    | _ => do readArguments (← s.givePath argument) rest

def Request.ofArguments (arguments : List String) : Except Halt Request := do
  let s ← readArguments .none arguments
  match s.path with
  | some path => return ⟨path, s.limit, s.json, s.output, s.skipValidation⟩
  | none => throw .misuse

end TensorEval.Command
