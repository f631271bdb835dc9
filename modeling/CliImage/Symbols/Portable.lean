import CliImage.Metadata
import CliImage.Symbols.Debug

/-!
Portable PDBs and whether one belongs to an image.
-/

namespace CliImage

structure Symbols where
  path : String
  metadata : Metadata

namespace Symbols

def windowsSignature : Bytes := Utf8.encode "Microsoft C/C++ MSF 7.00\r\n\x1aDS\x00\x00\x00"

def id (symbols : Symbols) : Bytes :=
  match symbols.metadata.pdb with
  | some pdb => pdb.id.toArray
  | none => Bytes.zeros 20

/-- Every table the PDB counts must have as many rows in the image. -/
def checkRows (path : String) (pdb : PdbHeader) (image : Tables) : List Nat → Result Unit
  | [] => .ok ()
  | slot :: rest =>
    match TableId.ofNumber? slot with
    | none => .error (.fault (.debugTable slot))
    | some t =>
      if image.count t = pdb.rows.rows t then checkRows path pdb image rest
      else .error (.pdb path (.rowCount (pdb.rows.rows t) t (image.count t)))

/-- Reads a PDB that must belong to the image with this file and these tables. -/
def parse (path : String) (data : Bytes) (file : PeFile) (image : Tables) : Result Symbols := do
  if data.extract 0 windowsSignature.size = windowsSignature then throw (.pdb path .windows)
  let metadata ← Metadata.read data
  let some pdb := metadata.pdb | throw (.pdb path .noPdbStream)
  match ← file.codeViewGuid with
  | some guid => if guid ≠ pdb.guid then throw (.pdb path .idDiffers)
  | none => pure ()
  checkRows path pdb image (maskSlots pdb.referenced)
  let rows := metadata.tables.count .methodDebugInformation
  if rows ≠ 0 ∧ rows ≠ image.count .methodDef then
    throw (.pdb path (.debugRows rows (image.count .methodDef)))
  .ok ⟨path, metadata⟩

/-- The same, as part of reading an image: all that is wrong is wrong with the symbols. -/
def read (path : String) (data : Bytes) (file : PeFile) (image : Tables) : Result Symbols :=
  (parse path data file image).mapError Error.inSymbols

end Symbols

end CliImage
