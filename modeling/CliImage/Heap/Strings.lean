import CliImage.Error
import CliImage.Text.Utf8

/-!
The heap of NUL-terminated names. The empty name is at zero; a new name that ends an old one shares
its bytes.
-/

namespace CliImage

structure Strings where
  data : Bytes
  deriving DecidableEq, Repr

namespace Strings

def empty : Strings := ⟨#[0]⟩

def read (data : Bytes) : Result Strings :=
  if data[0]? = some 0 then .ok ⟨data⟩ else .error (.fault .stringsHeap)

/-- The first zero byte at or behind a place. -/
def terminator? (data : Bytes) (start : Nat) : Option Nat :=
  if h : start < data.size then
    if data[start] = 0 then some start else terminator? data (start + 1)
  else none
termination_by data.size - start

def get (heap : Strings) (index : Nat) : Result String :=
  if index < heap.data.size then
    match (terminator? heap.data index).bind fun stop =>
        Utf8.decode? (heap.data.extract index stop) with
    | some text => .ok text
    | none => .error (.fault (.stringText index))
  else .error .outOfBounds

/-- Whether the bytes, in reverse order, stand in front of a place. -/
def endsAt (data : Bytes) : Nat → List UInt8 → Bool
  | _, [] => true
  | 0, _ :: _ => false
  | stop + 1, b :: bs => data[stop]? == some b && endsAt data stop bs

/-- The first terminator at or behind a place that the bytes, in reverse order, stand in front of. -/
def findEnd? (data : Bytes) (reversed : List UInt8) (stop : Nat) : Option Nat :=
  if h : stop < data.size then
    if data[stop] = 0 ∧ endsAt data stop reversed then some stop
    else findEnd? data reversed (stop + 1)
  else none
termination_by data.size - stop

def intern (heap : Strings) (text : String) : Strings × Nat :=
  if text.isEmpty then (heap, 0)
  else
    let name := Utf8.encode text
    match findEnd? heap.data name.toList.reverse 0 with
    | some stop => (heap, stop - name.size)
    | none => (⟨heap.data ++ name ++ #[0]⟩, heap.data.size)

end Strings

end CliImage
