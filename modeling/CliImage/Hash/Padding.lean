import CliImage.Bytes

/-!
How the hashes fill a message up to whole blocks: one bit, zeros and the number of bits.
-/

namespace CliImage.Hash

def pad (block lengthBytes : Nat) (data : Bytes) : Bytes :=
  let used := (data.size + 1 + lengthBytes) % block
  data ++ #[0x80] ++ Bytes.zeros ((block - used) % block)
    ++ Bytes.ofNatBE lengthBytes (8 * data.size)

end CliImage.Hash
