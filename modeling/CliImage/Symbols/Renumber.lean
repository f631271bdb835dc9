import CliImage.Renumber.Columns
import CliImage.Renumber.MethodPlan

/-!
Keeping a portable PDB in step with renumbered methods.
-/

namespace CliImage.Metadata

/-- The kind of custom debug information that tells where async methods resume. -/
def asyncStepping : Bytes := #[
  0xC5, 0x2A, 0xFD, 0x54, 0x25, 0xE9, 0x1A, 0x40, 0x9C, 0x2A, 0xF9, 0x4F, 0x17, 0x10, 0x72, 0xF8]

/-- Debug rows in the order of the method rows; added methods have an empty one. -/
def planDebugRows (plan : MethodPlan) (ts : Tables) : Result Tables :=
  if ts.count .methodDebugInformation = 0 then .ok ts
  else do
    let rows ← plan.rows.toList.mapM fun planned =>
      match planned with
      | .existing rid =>
        match ts.row? .methodDebugInformation rid with
        | some row => .ok row
        | none => .error (.fault (.debugRow rid))
      | .added _ => .ok #[0, 0]
    .ok (ts.setTable .methodDebugInformation rows.toArray)

/-- Steps of a stepping blob while there are any: two offsets and a method, renumbered. -/
def readSteps (rids : RidMap) : Nat → Bytes → Reader Bytes
  | 0, done => pure done
  | room + 1, done => do
    if ← Reader.hasMore then do
      let offsets ← Reader.bytes 4
      let resume ← Reader.bytes 4
      let method ← Compressed.read
      match Compressed.encode (rids.get (UInt32.ofNat method)).toNat with
      | .ok encoded => readSteps rids room (done ++ offsets ++ resume ++ encoded)
      | .error e => Reader.fail e
    else pure done

def readStepping (rids : RidMap) : Reader Bytes := do
  let handler ← Reader.bytes 4
  readSteps rids (← Reader.data).size handler

/-- Whether a row of custom debug information is about async stepping. -/
def isAsyncStepping (m : Metadata) (kind : Nat) : Result Bool :=
  if kind = 0 then .ok false
  else do
    let guid ← m.guids.get kind
    .ok (guid = asyncStepping)

/-- Renumbers the stepping information of one row; whether it changed. -/
def renumberStepping (rids : RidMap) (m : Metadata) (rid : Nat) : Result (Metadata × Bool) := do
  let kind ← m.tables.cell .customDebugInformation rid 1
  let value ← m.tables.cell .customDebugInformation rid 2
  if !(← m.isAsyncStepping kind.toNat) then return (m, false)
  let blob ← m.blobs.get value.toNat
  if blob.isEmpty then return (m, false)
  let renumbered ← (readStepping rids).run blob
  if renumbered = blob then return (m, false)
  let (blobs, index) ← m.blobs.intern renumbered
  let tables := m.tables.setCell .customDebugInformation rid 2 (UInt32.ofNat index)
  return ({ m with blobs, tables }, true)

/-- Renumbers the stepping information of all rows; how many changed. -/
def renumberAllStepping (rids : RidMap) (m : Metadata) : Result (Metadata × Nat) :=
  (List.range' 1 (m.tables.count .customDebugInformation)).foldlM (fun (m, n) rid => do
    let (m, changed) ← renumberStepping rids m rid
    .ok (m, if changed then n + 1 else n)) (m, 0)

/-- The PDB for the planned method rows. -/
def renumberMethods (m : Metadata) (plan : MethodPlan) : Result Metadata := do
  let tables ← (← planDebugRows plan m.tables).renumbered plan.rids
  let (m, _) ← renumberAllStepping plan.rids { m with tables }
  .ok { m with
    pdb := m.pdb.map fun pdb => { pdb with entryPoint := plan.rids.token pdb.entryPoint } }

/-- The row counts that the PDB records, taken from the image. -/
def refreshCounts (m : Metadata) (image : Tables) : Metadata :=
  let counts := image.counts
  { m with
    pdb := m.pdb.map fun pdb => { pdb with
      rows := (maskSlots pdb.referenced).foldl
        (fun rows slot => rows.setIfInBounds slot (counts.toArray.getD slot 0)) pdb.rows } }

/-- The bytes of the PDB with the image's row counts, and where its id stands in them. -/
def encodePdb (m : Metadata) (image : Tables) : Result (Bytes × Nat) := do
  let (data, m) ← (m.refreshCounts image).encode
  match m.root.streams.find? (·.name == "#Pdb") with
  | some header => .ok (data, header.offset.toNat)
  | none => .error (.fault .noPdbStream)

end CliImage.Metadata
