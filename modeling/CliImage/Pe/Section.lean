import CliImage.Bytes
import CliImage.Text.Utf8

/-!
Section headers: where a part of the image lies in memory and in the file.
-/

namespace CliImage

structure Section where
  name : String
  virtualSize : UInt32
  virtualAddress : UInt32
  rawSize : UInt32
  rawPointer : UInt32
  characteristics : UInt32
  deriving DecidableEq, Repr, Inhabited

namespace Section

def headerSize : Nat := 40

def start (s : Section) : Nat := s.virtualAddress.toNat

/-- What the section takes in memory. -/
def extent (s : Section) : Nat := max s.virtualSize.toNat s.rawSize.toNat

def rawStart (s : Section) : Nat := s.rawPointer.toNat

def rawEnd (s : Section) : Nat := s.rawPointer.toNat + s.rawSize.toNat

def Contains (s : Section) (rva : Nat) : Prop := s.start ≤ rva ∧ rva < s.start + s.extent

instance (s : Section) (rva : Nat) : Decidable (s.Contains rva) :=
  inferInstanceAs (Decidable (_ ∧ _))

def trimZeros (name : String) : String :=
  String.ofList (name.toList.reverse.dropWhile (· == '\x00')).reverse

def readAt (data : Bytes) (offset : Nat) : Section where
  name := trimZeros (Utf8.decodeLossy (data.extract offset (offset + 8)))
  virtualSize := UInt32.ofNat (data.natAt (offset + 8) 4)
  virtualAddress := UInt32.ofNat (data.natAt (offset + 12) 4)
  rawSize := UInt32.ofNat (data.natAt (offset + 16) 4)
  rawPointer := UInt32.ofNat (data.natAt (offset + 20) 4)
  characteristics := UInt32.ofNat (data.natAt (offset + 36) 4)

end Section

end CliImage
