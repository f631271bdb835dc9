import CliImage.Bytes
import CliImage.Error

/-!
Access to a byte string at an offset that may lie beyond its end.
-/

namespace CliImage.Bytes

def slice (data : Bytes) (offset len : Nat) : Result Bytes :=
  if offset + len ≤ data.size then .ok (data.extract offset (offset + len))
  else .error .outOfBounds

/-- The little-endian number of `w` bytes at an offset. -/
def numberAt (data : Bytes) (offset w : Nat) : Result Nat :=
  if offset + w ≤ data.size then .ok (data.natAt offset w) else .error .outOfBounds

/-- Replaces the bytes from an offset on, which must all be there. -/
def put (data : Bytes) (offset : Nat) (new : Bytes) : Result Bytes :=
  if offset + new.size ≤ data.size then .ok (data.overlay offset new) else .error .outOfBounds

/-- An index of two or four bytes. -/
def ofIndex (large : Bool) (value : UInt32) : Result Bytes :=
  if large then .ok (ofUInt32 value)
  else if value.toNat < 2 ^ 16 then .ok (ofNat 2 value.toNat)
  else .error (.fault (.indexTooWide value))

end CliImage.Bytes
