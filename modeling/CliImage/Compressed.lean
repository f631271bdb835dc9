import CliImage.Reader

/-!
Compressed integers: one, two or four bytes, highest first, whose leading bits tell the length.
-/

namespace CliImage.Compressed

def encode? (value : Nat) : Option Bytes :=
  if value < 0x80 then some (Bytes.ofNatBE 1 value)
  else if value < 0x4000 then some (Bytes.ofNatBE 2 (0x8000 + value))
  else if value < 0x20000000 then some (Bytes.ofNatBE 4 (0xC0000000 + value))
  else none

def encode (value : Nat) : Result Bytes :=
  match encode? value with
  | some bytes => .ok bytes
  | none => .error (.fault (.compressedTooLarge value))

def read : Reader Nat := do
  let lead ← Reader.u8
  if lead < 0x80 then pure lead.toNat
  else if lead < 0xC0 then do
    let next ← Reader.u8
    pure (lead.toNat % 0x40 * 256 + next.toNat)
  else if lead < 0xE0 then do
    let rest ← Reader.bytes 3
    pure (lead.toNat % 0x20 * 256 ^ 3 + rest.toNatBE)
  else Reader.fail (.fault (.compressedLead lead))

theorem lt_of_read {data : Bytes} {pos value next : Nat}
    (h : read data pos = .ok value next) : pos < next := by
  unfold read at h
  rw [Reader.bind_apply] at h
  split at h
  · rename_i lead first hlead
    have hfirst := Reader.next_of_u8 hlead
    split at h
    · cases h
      omega
    split at h
    · rw [Reader.bind_apply] at h
      split at h
      · rename_i second hsecond
        have := Reader.next_of_u8 hsecond
        cases h
        omega
      · cases h
    split at h
    · rw [Reader.bind_apply] at h
      split at h
      · rename_i second hrest
        have := Reader.next_of_bytes hrest
        cases h
        omega
      · cases h
    · cases h
  · cases h

/-- A compressed reference to a type: the low two bits name the table, the rest the row. -/
def readToken : Reader Token := do
  let value ← read
  match value % 4 with
  | 0 => pure ⟨UInt32.ofNat (0x02000000 ||| value / 4)⟩
  | 1 => pure ⟨UInt32.ofNat (0x01000000 ||| value / 4)⟩
  | 2 => pure ⟨UInt32.ofNat (0x1B000000 ||| value / 4)⟩
  | _ => Reader.fail (.fault (.compressedToken value))

end CliImage.Compressed
