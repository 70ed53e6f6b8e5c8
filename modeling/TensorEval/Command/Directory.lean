import TensorEval.Bindings
/-!
Text files as seen from a directory, and the paths that lead to them. Around the directory there
are the directories above it up to the root, and nothing else until it is written.
-/
namespace TensorEval.Command

/-- Text files by their names as seen from a directory. A name that starts with `..` leads above it,
and one that starts with a slash leads from the root. -/
abbrev Directory := Bindings String

inductive PathFault where
  | missing | isDirectory | notDirectory | tooLong
  deriving DecidableEq, Repr

def PathFault.message : PathFault → String
  | missing => "No such file or directory (os error 2)"
  | isDirectory => "Is a directory (os error 21)"
  | notDirectory => "Not a directory (os error 20)"
  | tooLong => "File name too long (os error 36)"

def pathParts (path : String) : List String :=
  ((path.toList.splitOn '/').map String.ofList).filter (· ≠ "")

/-- The last part of a path that names something: a single dot does not. -/
def fileName (path : String) : Option String :=
  match ((pathParts path).filter (· ≠ ".")).getLast? with
  | some name => if name = ".." then none else some name
  | none => none

/-- The part of a file name after its last dot, unless nothing stands before that dot. -/
def extension (path : String) : Option String := do
  let name ← fileName path
  let reversed := name.toList.reverse
  match reversed.dropWhile (· ≠ '.') with
  | _ :: _ :: _ => some (String.ofList (reversed.takeWhile (· ≠ '.')).reverse)
  | _ => none

def maxPartBytes : Nat := 255

def maxPathBytes : Nat := 4095

/-- The parts that lead to the root: an empty part, so that a slash starts the names below it. -/
def root : List String := [""]

/-- The parts that lead one directory up. Nothing stands above the root. -/
def above (parts : List String) : List String :=
  if parts = root then root
  else match parts.getLast? with
    | none | some ".." => parts ++ [".."]
    | some _ => parts.dropLast

inductive Place where
  | directory (parts : List String)
  | file (name text : String)
  /-- Nothing yet, in a directory that exists. -/
  | vacant (name : String)
  deriving DecidableEq, Repr

namespace Directory

def placeAt (files : Directory) (parts : List String) : Place :=
  let name := "/".intercalate parts
  match files.get? name with
  | some text => .file name text
  | none =>
    if files.names.any ((name ++ "/").isPrefixOf ·) then .directory parts else .vacant name

def follow (files : Directory) (place : Place) (part : String) : Except PathFault Place :=
  match place with
  | .file .. => .error .notDirectory
  | .vacant _ => .error .missing
  | .directory parts =>
    if part = "." then .ok place
    else if part = ".." then .ok (.directory (above parts))
    else if part.utf8ByteSize > maxPartBytes then .error .tooLong
    else .ok (files.placeAt (parts ++ [part]))

def resolve (files : Directory) (path : String) : Except PathFault Place :=
  if path.utf8ByteSize > maxPathBytes then .error .tooLong
  else
    let start := if path.startsWith "/" then root else []
    (pathParts path).foldlM files.follow (.directory start)

def read (files : Directory) (path : String) : Except PathFault String := do
  match ← files.resolve path with
  | .file _ text => if path.endsWith "/" then throw .notDirectory else return text
  | .directory _ => throw .isDirectory
  | .vacant _ => throw .missing

def write (files : Directory) (path text : String) : Except PathFault Directory := do
  let place ← files.resolve path
  if path.endsWith "/" then throw .isDirectory
  match place with
  | .file name _ => return files.insert name text
  | .vacant name => return files.insert name text
  | .directory _ => throw .isDirectory

end Directory

end TensorEval.Command
