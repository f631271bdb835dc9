import CliImage.Image.TypeName
import CliImage.Signature.Reader
import CliImage.Signature.Text

/-!
Reading an image: its headers, its metadata and from them the types and methods.
-/

namespace CliImage

/-- The run of rows that a row owns: from its own cell to the next row's, or to the end. -/
def Tables.run (ts : Tables) (owner : TableId) (column rid : Nat) (target : TableId) :
    Result (Nat × Nat) := do
  let start := (← ts.cell owner rid column).toNat
  let rows := ts.count target
  let stop ← if rid < ts.count owner then UInt32.toNat <$> ts.cell owner (rid + 1) column
    else pure (rows + 1)
  if start = 0 ∨ stop < start ∨ rows + 1 < stop then
    throw (.fault (.runRange owner rid target start stop))
  .ok (start, stop)

namespace Metadata

def stringCell (m : Metadata) (t : TableId) (rid column : Nat) : Result String := do
  m.strings.get (← m.tables.cell t rid column).toNat

def readType (m : Metadata) (rid : Nat) : Result TypeDef := do
  let (start, stop) ← m.tables.run .typeDef 5 rid .methodDef
  let name ← m.stringCell .typeDef rid 1
  let scope ← m.stringCell .typeDef rid 2
  let flags ← m.tables.cell .typeDef rid 0
  .ok { rid, name, scope, flags, methods := (List.range' (start - 1) (stop - start)).toArray }

def readParamNames (m : Metadata) (start stop : Nat) : Result (List (Nat × String)) :=
  (List.range' start (stop - start)).mapM fun rid => do
    let sequence ← m.tables.cell .param rid 1
    let name ← m.stringCell .param rid 2
    .ok (sequence.toNat, name)

/-- Parameters get their names from the rows that carry their number. -/
def methodParams (m : Metadata) (names : List (Nat × String)) (params : List (Param SigType)) :
    List MethodParam :=
  params.zipIdx.map fun (p, i) =>
    { name := (names.find? fun (sequence, _) => sequence == i + 1).map Prod.snd
      sequence := i + 1
      typeName := p.fullName m.typeName }

end Metadata

namespace PeFile

def readBody (file : PeFile) (rva implFlags : UInt32) : Result (Option Body × Array Instruction) :=
  if rva = 0 ∨ ¬ (MethodFlags.mk 0 implFlags.toNat).isIl then .ok (none, #[])
  else do
    let data ← file.tail rva.toNat
    let body ← Body.read data
    let code ← body.code data
    let instructions ← Instruction.decode code (UInt64.ofNat (rva.toNat + body.headerSize))
    .ok (some body, instructions)

def readMethod (file : PeFile) (m : Metadata) (rid : Nat) : Result Method := do
  let name ← m.stringCell .methodDef rid 3
  let rva ← m.tables.cell .methodDef rid 0
  let implFlags ← m.tables.cell .methodDef rid 1
  let blob ← m.blobs.get (← m.tables.cell .methodDef rid 4).toNat
  let signature ← (Signature.read blob).mapError (.inMethod .signature name)
  let (start, stop) ← m.tables.run .methodDef 5 rid .param
  let names ← m.readParamNames start stop
  let (body, instructions) ← (file.readBody rva implFlags).mapError (.inMethod .body name)
  let flags ← m.tables.cell .methodDef rid 2
  .ok {
    rid := some rid, name, rva, flags, implFlags, signature
    returnType := signature.returns.fullName m.typeName
    params := m.methodParams names signature.params
    body, instructions, encodedBody := none, encodedSignature := none }

end PeFile

namespace Image

/-- Reads what one function makes of the rows 1, 2 and so on of a table. -/
def readRows {α : Type} (read : Nat → Result α) : (left rid : Nat) → Array α → Result (Array α)
  | 0, _, done => .ok done
  | left + 1, rid, done =>
    match read rid with
    | .ok a => readRows read left (rid + 1) (done.push a)
    | .error e => .error e

def parse (id : Nat) (file : PeFile) : Result Image := do
  let cli ← CliHeader.read (← file.slice file.cli.rva.toNat CliHeader.encodedSize)
  let metadata ← Metadata.read
    (← file.slice cli.metadata.rva.toNat cli.metadata.size.toNat)
  if metadata.isPdb then throw (.fault .imageIsPdb)
  let methods ← readRows (file.readMethod metadata) (metadata.tables.count .methodDef) 1 #[]
  let types ← readRows metadata.readType (metadata.tables.count .typeDef) 1 #[]
  .ok { id, path := none, file, cli, metadata, types, methods, symbols := none }

/-- The image in a byte string. -/
def read (id : Nat) (data : Bytes) : Result Image :=
  (do parse id (← PeFile.read data)).mapError Error.inImage

end Image

end CliImage
