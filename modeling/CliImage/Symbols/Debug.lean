import CliImage.Pe.File

/-!
The debug directory: entries that tell where debug data lies and which symbols belong to the image.
-/

namespace CliImage

structure DebugEntry where
  offset : Nat
  majorVersion : UInt16
  minorVersion : UInt16
  kind : UInt32
  dataSize : UInt32
  dataAddress : UInt32
  dataPointer : UInt32
  deriving DecidableEq, Repr, Inhabited

namespace DebugEntry

def size : Nat := 28

def codeView : UInt32 := 2

def pdbChecksum : UInt32 := 19

def readAt (data : Bytes) (offset : Nat) : DebugEntry where
  offset := offset
  majorVersion := UInt16.ofNat (data.natAt (offset + 8) 2)
  minorVersion := UInt16.ofNat (data.natAt (offset + 10) 2)
  kind := UInt32.ofNat (data.natAt (offset + 12) 4)
  dataSize := UInt32.ofNat (data.natAt (offset + 16) 4)
  dataAddress := UInt32.ofNat (data.natAt (offset + 20) 4)
  dataPointer := UInt32.ofNat (data.natAt (offset + 24) 4)

def pointerOffset (e : DebugEntry) : Nat := e.offset + 24

def payload (e : DebugEntry) (file : PeFile) : Result Bytes :=
  file.data.slice e.dataPointer.toNat e.dataSize.toNat

end DebugEntry

namespace PeFile

def debugEntries (file : PeFile) : Result (List DebugEntry) :=
  match file.directory? debugDirectory with
  | none => .ok []
  | some d => do
    let start ← file.offsetOf d.rva.toNat
    let data ← file.data.slice start d.size.toNat
    .ok ((List.range (data.size / DebugEntry.size)).map fun i =>
      DebugEntry.readAt file.data (start + DebugEntry.size * i))

def rsds : Bytes := #[0x52, 0x53, 0x44, 0x53]

/-- The identifier in the first entry that names a portable PDB. -/
def codeViewGuidOf (file : PeFile) : List DebugEntry → Result (Option Bytes)
  | [] => .ok none
  | e :: rest =>
    if e.kind = DebugEntry.codeView then do
      let payload ← e.payload file
      if 24 ≤ payload.size ∧ payload.extract 0 4 = rsds then .ok (some (payload.extract 4 20))
      else codeViewGuidOf file rest
    else codeViewGuidOf file rest

def codeViewGuid (file : PeFile) : Result (Option Bytes) := do
  file.codeViewGuidOf (← file.debugEntries)

end PeFile

end CliImage
