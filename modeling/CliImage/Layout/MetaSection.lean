import CliImage.Bytes
import CliImage.Error

/-!
The section that is added: method bodies, metadata and room for a signature, each at a multiple of
four. Where an address does not fit the padding before it stays.
-/

namespace CliImage

structure MetaSection where
  rva : UInt32
  data : Bytes
  deriving DecidableEq, Repr, Inhabited

namespace MetaSection

def name : String := ".meta"

/-- Initialized data that can be read. -/
def characteristics : UInt32 := 0x40000040

abbrev Edit := EStateM Error MetaSection

def nextRva : Edit UInt32 := fun s =>
  let s := { s with data := s.data.padTo 4 }
  if 2 ^ 32 ≤ s.data.size then .error (.unsupported .sectionSize) s
  else if 2 ^ 32 ≤ s.rva.toNat + s.data.size then .error (.unsupported .addressSpace) s
  else .ok (UInt32.ofNat (s.rva.toNat + s.data.size)) s

/-- Appends bytes and tells their address. -/
def push (bytes : Bytes) : Edit UInt32 := do
  let rva ← nextRva
  modify fun s => { s with data := s.data ++ bytes }
  pure rva

/-- Leaves room and tells its address. -/
def reserve (size : Nat) : Edit UInt32 := push (Bytes.zeros size)

end MetaSection

end CliImage
