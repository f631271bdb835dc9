import CliImage.Bytes.Access

/-!
The checksum of a PE file: the little-endian words summed with the carry added back, without the
checksum's own field, and the length added.
-/

namespace CliImage.Checksum

def fold (sum : Nat) : Nat := if 0xFFFF < sum then sum % 0x10000 + sum / 0x10000 else sum

/-- Folds until 16 bits are left. -/
def reduce (sum : Nat) : Nat :=
  if 0xFFFF < sum then reduce (sum % 0x10000 + sum / 0x10000) else sum
termination_by sum
decreasing_by omega

/-- Adds the words from `offset` on; a last odd byte is a word. -/
def sumFrom (data : Bytes) (field offset sum : Nat) : Nat :=
  if offset < data.size then
    if field ≤ offset ∧ offset < field + 4 then sumFrom data field (offset + 2) sum
    else sumFrom data field (offset + 2) (fold (sum + data.natAt offset 2))
  else sum
termination_by data.size - offset

def compute (data : Bytes) (field : Nat) : UInt32 :=
  UInt32.ofNat (reduce (sumFrom data field 0 0 + data.size))

/-- Stores the checksum in its field and tells it. -/
def update (data : Bytes) (field : Nat) : Result (UInt32 × Bytes) := do
  if data.size < field + 4 then throw .outOfBounds
  let checksum := compute data field
  .ok (checksum, ← data.put field (Bytes.ofUInt32 checksum))

end CliImage.Checksum
