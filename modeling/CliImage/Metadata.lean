import CliImage.Heap.Blobs
import CliImage.Heap.Guids
import CliImage.Heap.Strings
import CliImage.Root
import CliImage.Symbols.PdbHeader
import CliImage.Table.Stream

/-!
Metadata of an image or a portable PDB: the streams that are understood as values, the others as
bytes, all in their order.
-/

namespace CliImage

inductive StreamSlot
  | tables
  | strings
  | blobs
  | guids
  | pdb
  | raw (name : String) (data : Bytes)
  deriving DecidableEq, Repr, Inhabited

structure Metadata where
  root : Root
  strings : Strings
  blobs : Blobs
  guids : Guids
  tables : Tables
  pdb : Option PdbHeader
  slots : List StreamSlot
  deriving Repr

namespace Metadata

/-- What has been found while the streams are read in order; the first of a name counts. -/
structure Found where
  tables : Option Tables
  strings : Option Strings
  blobs : Option Blobs
  guids : Option Guids
  seenPdb : Bool
  slots : Array StreamSlot

def Found.push (found : Found) (slot : StreamSlot) : Found :=
  { found with slots := found.slots.push slot }

def streamData (data : Bytes) (header : StreamHeader) : Bytes :=
  data.extract header.offset.toNat (header.offset.toNat + header.size.toNat)

def place (data : Bytes) (external : Option RowCounts) (found : Found) (header : StreamHeader) :
    Result Found := do
  let bytes := streamData data header
  let raw : StreamSlot := .raw header.name bytes
  match header.name with
  | "#-" => throw (.fault .uncompressedTables)
  | "#~" =>
    if found.tables.isSome then .ok (found.push raw)
    else
      let tables ← Tables.read bytes external
      .ok { found.push .tables with tables := some tables }
  | "#Strings" =>
    if found.strings.isSome then .ok (found.push raw)
    else
      let heap ← Strings.read bytes
      .ok { found.push .strings with strings := some heap }
  | "#Blob" =>
    if found.blobs.isSome then .ok (found.push raw)
    else
      let heap ← Blobs.read bytes
      .ok { found.push .blobs with blobs := some heap }
  | "#GUID" =>
    if found.guids.isSome then .ok (found.push raw)
    else
      let heap ← Guids.read bytes
      .ok { found.push .guids with guids := some heap }
  | "#Pdb" =>
    if found.seenPdb then .ok (found.push raw)
    else .ok { found.push .pdb with seenPdb := true }
  | _ => .ok (found.push raw)

/-- A heap of names or blobs that is missing is added, empty, behind the streams. -/
def read (data : Bytes) : Result Metadata := do
  let root ← Root.read data
  let pdb ← match root.streams.find? (·.name == "#Pdb") with
    | some header => some <$> PdbHeader.read (streamData data header)
    | none => pure none
  let found ← root.streams.foldlM (place data (pdb.map PdbHeader.rows))
    ⟨none, none, none, none, false, #[]⟩
  let some tables := found.tables | throw (.fault .noTableStream)
  let slots := found.slots.toList ++ (if found.strings.isNone then [.strings] else [])
    ++ (if found.blobs.isNone then [.blobs] else [])
  .ok {
    root, tables, pdb, slots
    strings := found.strings.getD Strings.empty
    blobs := found.blobs.getD Blobs.empty
    guids := found.guids.getD Guids.empty }

def isPdb (m : Metadata) : Bool := m.pdb.isSome

/-- The row counts of the image that a portable PDB's columns are sized by. -/
def external (m : Metadata) : Option RowCounts := m.pdb.map PdbHeader.rows

/-- The heap sizes with the bits that the heaps have come to need. -/
def heapFlags (m : Metadata) : UInt8 :=
  m.tables.heapSizes
    ||| (if 0xFFFF < m.strings.data.size then 0x01 else 0)
    ||| (if 0xFFFF < m.guids.count then 0x02 else 0)
    ||| (if 0xFFFF < m.blobs.data.size then 0x04 else 0)

def widened (m : Metadata) : Metadata :=
  { m with tables := { m.tables with heapSizes := m.heapFlags } }

def encodeSlot (m : Metadata) (tables : Bytes) : StreamSlot → Option (String × Bytes)
  | .tables => some ("#~", tables)
  | .strings => some ("#Strings", m.strings.data)
  | .blobs => some ("#Blob", m.blobs.data)
  | .guids => some ("#GUID", m.guids.data)
  | .pdb => m.pdb.map fun pdb => ("#Pdb", pdb.encode)
  | .raw name data => some (name, data)

/-- Headers of streams that lie one behind the other. -/
def layStreams : Nat → List (String × Bytes) → List StreamHeader
  | _, [] => []
  | offset, (name, data) :: rest =>
    ⟨UInt32.ofNat offset, UInt32.ofNat data.size, name⟩ :: layStreams (offset + data.size) rest

/-- The bytes of the metadata, and the metadata with the stream headers and heap sizes that they
carry. -/
def encode (m : Metadata) : Result (Bytes × Metadata) := do
  let m := m.widened
  let tables ← m.tables.encode m.external
  let streams := (m.slots.filterMap (m.encodeSlot tables)).map fun (name, data) =>
    (name, data.padTo 4)
  let start := { m.root with streams := layStreams 0 streams }.headerSize
  let root := { m.root with streams := layStreams start streams }
  .ok (streams.foldl (fun done (_, data) => done ++ data) root.encode, { m with root })

end Metadata

end CliImage
