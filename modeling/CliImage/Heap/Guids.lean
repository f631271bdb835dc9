import CliImage.Bytes
import CliImage.Error

/-!
The heap of 16-byte identifiers, numbered from one.
-/

namespace CliImage

structure Guids where
  data : Bytes
  deriving DecidableEq, Repr

namespace Guids

def empty : Guids := ⟨#[]⟩

def read (data : Bytes) : Result Guids :=
  if data.size % 16 = 0 then .ok ⟨data⟩ else .error (.fault (.guidHeap data.size))

def count (heap : Guids) : Nat := heap.data.size / 16

def get (heap : Guids) (index : Nat) : Result Bytes :=
  if 1 ≤ index ∧ index * 16 ≤ heap.data.size then
    .ok (heap.data.extract ((index - 1) * 16) (index * 16))
  else .error .outOfBounds

end Guids

end CliImage
