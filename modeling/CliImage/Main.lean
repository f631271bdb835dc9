import CliImage.CommandLine.Invocation

/-!
The program: patches an image in place and says so.
-/

namespace CliImage.Console

def usage : String := "usage: cliimage [-k KEYFILE | /k:KEYFILE] [-v] TYPE_NAME METHOD_NAME IMAGE

The initializer method must
  - not be private or protected
  - take no parameters
  - return void
  - be static"

def usageError : CommandLine.UsageError → String
  | .unknownArgument => "unexpected argument"
  | .missingRequiredArgument => "a name is missing"
  | .invalidValue => "a value is missing or empty"
  | .argumentConflict => "an option is given twice"
  | .tooManyValues => "a flag takes no value"

/-- What stands at a path; what is there and cannot be read is not a file. -/
def readEntry (path : String) : IO (Option Entry) := do
  try
    let data ← IO.FS.readBinFile path
    return some (.file data.data)
  catch
    | .noFileOrDirectory .. => return none
    | _ => return some .folder

def readDirectory (paths : List String) : IO Directory := do
  let entries ← paths.filterMapM fun path => do
    return (← readEntry path).map fun entry => (Place.path (Path.names path), entry)
  return ⟨entries⟩

/-- Creates a file beside a path, under a name that is free. -/
def createBeside (path suffix : String) (data : Bytes) : Nat → Nat → IO String
  | 0, _ => throw (.userError "no name is free")
  | tries + 1, n => do
    let name := s!"{path}.{n}.{suffix}"
    try
      let file ← IO.FS.Handle.mk name .writeNew
      file.write ⟨data⟩
      file.flush
      return name
    catch
      | .alreadyExists .. => createBeside path suffix data tries (n + 1)
      | e => throw e

/-- A target with the names of its staged file and of the copy of what it replaces. -/
structure Staged where
  target : Target
  file : String
  copy : Option String

def remove (name : String) : IO Unit := try IO.FS.removeFile name catch _ => pure ()

def backUp (target : Target) : IO (Option String) := do
  match ← readEntry target.path with
  | some (.file old) => some <$> createBeside target.path "bak" old 100 0
  | _ => pure none

def restore (s : Staged) : IO Unit :=
  match s.copy with
  | some copy => try IO.FS.rename copy s.target.path catch _ => pure ()
  | none => remove s.target.path

def moveAll : List Staged → IO Unit
  | [] => pure ()
  | s :: rest => do
    try IO.FS.rename s.file s.target.path
    catch _ => throw (.userError (Error.write s.target.path).message)
    try moveAll rest
    catch e => do
      restore s
      throw e

def stage (target : Target) : IO Staged := do
  try
    let file ← createBeside target.path "tmp" target.data 100 0
    return ⟨target, file, ← backUp target⟩
  catch _ => throw (.userError (Error.write target.path).message)

/-- Stages all targets and moves them; nothing stays beside them. -/
def replaceAll : List Target → List Staged → IO Unit
  | [], staged => moveAll staged.reverse
  | target :: rest, staged => do
    let s ← stage target
    try replaceAll rest (s :: staged)
    finally do
      remove s.file
      s.copy.forM remove

def run (patch : Patch) : IO UInt32 := do
  let paths := [patch.image, Path.ofSymbols patch.image] ++ patch.keyFile.toList
  match patch.targets (← readDirectory paths) with
  | .error e => do
    IO.eprintln ("error: " ++ e.message)
    return 1
  | .ok targets => do
    try
      replaceAll targets []
      IO.println ("Module Initializer successfully injected in assembly " ++ patch.image)
      return 0
    catch e => do
      IO.eprintln ("error: " ++ toString e)
      return 1

end CliImage.Console

open CliImage in
def main (args : List String) : IO UInt32 := do
  match CommandLine.parse args with
  | .help => do
    IO.eprintln Console.usage
    return 1
  | .usage e => do
    IO.eprintln ("error: " ++ Console.usageError e ++ "\n\n" ++ Console.usage)
    return 1
  | .patch patch _ => Console.run patch
