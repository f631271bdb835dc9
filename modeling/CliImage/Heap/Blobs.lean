import CliImage.Compressed

/-!
The heap of byte strings, each behind its compressed length. The empty one is at zero.
-/

namespace CliImage

structure Blobs where
  data : Bytes
  deriving DecidableEq, Repr

namespace Blobs

def empty : Blobs := ⟨#[0]⟩

def read (data : Bytes) : Result Blobs :=
  if data[0]? = some 0 then .ok ⟨data⟩ else .error (.fault .blobHeap)

def get (heap : Blobs) (index : Nat) : Result Bytes :=
  if index < heap.data.size then
    match Compressed.read heap.data index with
    | .ok len start =>
      if start + len ≤ heap.data.size then .ok (heap.data.extract start (start + len))
      else .error .outOfBounds
    | .error e _ => .error e
  else .error .outOfBounds

/-- The first entry with a value, entry by entry from `start` on; an entry that is no entry ends the
search. -/
def find? (data value : Bytes) (start : Nat) : Option Nat :=
  if _h : start < data.size then
    match _hr : Compressed.read data start with
    | .ok len first =>
      if data.size < first + len then none
      else if len = value.size ∧ data.extract first (first + len) = value then some start
      else find? data value (first + len)
    | .error _ _ => none
  else none
termination_by data.size - start
decreasing_by
  have := Compressed.lt_of_read _hr
  omega

def intern (heap : Blobs) (value : Bytes) : Result (Blobs × Nat) :=
  if value.isEmpty then .ok (heap, 0)
  else
    match find? heap.data value 0 with
    | some index => .ok (heap, index)
    | none => do
      let length ← Compressed.encode value.size
      .ok (⟨heap.data ++ length ++ value⟩, heap.data.size)

end Blobs

end CliImage
