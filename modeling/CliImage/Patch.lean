import CliImage.Directory.Commit
import CliImage.Image.Initializer
import CliImage.Image.Read
import CliImage.Output

/-!
Patching an image in its directory: its symbols are read with it and written with it.
-/

namespace CliImage

namespace Directory

/-- The image at a path, with its symbols if there are any. -/
def readImage (d : Directory) (id : Nat) (path : String) : Result Image := do
  let some data := d.file? path | throw (.notFound path)
  let image ← Image.read id data
  let image := { image with path := some path }
  let symbols := Path.ofSymbols path
  match d.file? symbols with
  | some pdb => image.attach symbols pdb
  | none => .ok image

def readKey (d : Directory) (path : String) : Result KeyPair :=
  match d.content? path with
  | none => .error (.notFound path)
  | some .folder => .error (.key (.unreadable path))
  | some (.file data) => KeyPair.read data

def readKey? (d : Directory) : Option String → Result (Option KeyPair)
  | none => .ok none
  | some path => do .ok (some (← d.readKey path))

/-- What an image is written as: the symbols, if it has any, and behind them the image. -/
def outputOf (d : Directory) (image : Image) (path : String) (key : Option String) :
    Result (List Target) := do
  let key ← d.readKey? key
  let output ← image.serialize key
  let symbols := output.symbols.toList.map fun pdb => ⟨Path.ofSymbols path, pdb⟩
  .ok (symbols ++ [⟨path, output.image⟩])

end Directory

/-- A method that an image shall call when it is loaded. -/
structure Patch where
  typeName : String
  methodName : String
  image : String
  keyFile : Option String
  deriving DecidableEq, Repr, Inhabited

namespace Patch

/-- The files that a patch replaces. -/
def targets (patch : Patch) (d : Directory) : Result (List Target) := do
  let image ← d.readImage 0 patch.image
  let target ← image.resolve patch.typeName patch.methodName
  let image ← image.inject target
  d.outputOf image patch.image patch.keyFile

end Patch

/-- Replaces the files that are made from a directory's own; it stays as it is if they cannot be
made. -/
def Directory.updateWith (refused : Step → Bool) (make : Directory → Result (List Target)) :
    Commit Unit := fun d =>
  match make d with
  | .ok targets => Directory.commit refused targets d
  | .error e => .error e d

def Directory.update (make : Directory → Result (List Target)) : Commit Unit :=
  Directory.updateWith (fun _ => false) make

def Patch.run (patch : Patch) : Commit Unit := Directory.update patch.targets

end CliImage
