import CliImage.Hash.Sha256
import CliImage.Hash.Sha512
import CliImage.Layout.Plan

/-!
The hash of a PDB that an image's debug directory can hold. The id does not count: it may be made
from the hash.
-/

namespace CliImage.PdbChecksum

def idSize : Nat := 20

def algorithm? : String → Option (Bytes → Bytes)
  | "SHA256" => some Hash.Sha256.sha256
  | "SHA384" => some Hash.Sha512.sha384
  | "SHA512" => some Hash.Sha512.sha512
  | _ => none

def compute (algorithm : String) (pdb : Bytes) (idOffset : Nat) : Result (Option Bytes) := do
  let data ← pdb.put idOffset (Bytes.zeros idSize)
  .ok ((algorithm? algorithm).map fun hash => hash data)

/-- Renews one entry, where it names a known algorithm and holds a hash of its size. -/
def updateEntry (file : PeFile) (layout : LayoutPlan) (pdb : Bytes) (idOffset : Nat)
    (e : DebugEntry) : Edit Unit := do
  let payload ← Edit.lift (e.payload file)
  match payload.findIdx? (· == 0) with
  | none => pure ()
  | some length => do
    let algorithm := Utf8.decodeLossy (payload.extract 0 length)
    match ← Edit.lift (compute algorithm pdb idOffset) with
    | none => pure ()
    | some hash =>
      if payload.size - length - 1 = hash.size then
        Edit.put (layout.shift e.dataPointer.toNat + length + 1) hash

/-- Renews the entries for a PDB in a file that has been laid out by a plan. -/
def update (file : PeFile) (layout : LayoutPlan) (pdb : Bytes) (idOffset : Nat) : Edit Unit := do
  let entries ← Edit.lift file.debugEntries
  (entries.filter fun e => e.kind == DebugEntry.pdbChecksum).forM
    (updateEntry file layout pdb idOffset)

end CliImage.PdbChecksum
