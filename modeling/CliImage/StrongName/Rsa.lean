import CliImage.Bytes
import CliImage.Hash.Sha1

/-!
RSA signatures over SHA-1 digests, with the padding that fills the block with ones.
-/

namespace CliImage.Rsa

def byteLength (n : Nat) : Nat := if n = 0 then 0 else n.log2 / 8 + 1

def powMod (base exponent modulus : Nat) : Nat :=
  if exponent = 0 then 1 % modulus
  else
    let half := powMod (base * base % modulus) (exponent / 2) modulus
    if exponent % 2 = 1 then half * base % modulus else half
termination_by exponent
decreasing_by omega

structure PublicKey where
  modulus : Nat
  exponent : Nat
  deriving DecidableEq, Repr, Inhabited

structure PrivateKey extends PublicKey where
  secret : Nat
  p : Nat
  q : Nat
  deriving DecidableEq, Repr, Inhabited

namespace PublicKey

def size (key : PublicKey) : Nat := byteLength key.modulus

def Sound (key : PublicKey) : Prop :=
  key.exponent < key.modulus ∧ key.modulus % 2 = 1 ∧ key.exponent % 2 = 1 ∧ 2 ≤ key.exponent ∧
    key.exponent < 2 ^ 33

instance (key : PublicKey) : Decidable key.Sound := inferInstanceAs (Decidable (_ ∧ _))

/-- The longest modulus that a public key is accepted with. -/
def sizeLimit : Nat := 2 ^ 4096

end PublicKey

namespace PrivateKey

def Sound (key : PrivateKey) : Prop :=
  key.toPublicKey.Sound ∧ 1 < key.p ∧ 1 < key.q ∧ key.p * key.q = key.modulus ∧
    key.secret * key.exponent % (key.p - 1) = 1 ∧
    key.secret * key.exponent % (key.q - 1) = 1

instance (key : PrivateKey) : Decidable key.Sound := inferInstanceAs (Decidable (_ ∧ _))

end PrivateKey

/-- The inverse of `a` modulo `m` by Euclid's algorithm, with the two rows `(r, s)` and `(r', s')`. -/
def inverseRows (m : Nat) (r s r' s' : Nat) : Option Nat :=
  if r' = 0 then if r = 1 then some s else none
  else inverseRows m r' s' (r % r') ((s + (m - r / r' * s' % m)) % m)
termination_by r'
decreasing_by exact Nat.mod_lt _ (by omega)

def inverse? (a m : Nat) : Option Nat := inverseRows m m 0 (a % m) (1 % m)

/-- Raises to the secret power, by way of the two primes where that can be. -/
def decrypt (key : PrivateKey) (c : Nat) : Nat :=
  match inverse? key.q key.p with
  | none => powMod c key.secret key.modulus
  | some inverse =>
    let m := powMod c (key.secret % (key.p - 1)) key.p
    let m' := powMod c (key.secret % (key.q - 1)) key.q
    let difference := (m + (key.p - m' % key.p)) % key.p
    difference * inverse % key.p * key.q + m'

/-- What stands before a SHA-1 digest to say that it is one. -/
def digestHeader : Bytes := #[
  0x30, 0x21, 0x30, 0x09, 0x06, 0x05, 0x2B, 0x0E, 0x03, 0x02, 0x1A, 0x05, 0x00, 0x04, 0x14]

/-- The block that is signed; none where the key is too short for it. -/
def padded? (size : Nat) (digest : Bytes) : Option Bytes :=
  let content := digestHeader ++ digest
  if content.size + 11 ≤ size then
    some (#[0x00, 0x01] ++ Array.replicate (size - content.size - 3) 0xFF ++ #[0x00] ++ content)
  else none

/-- The signature, highest byte first. -/
def sign? (key : PrivateKey) (digest : Bytes) : Option Bytes := do
  let block ← padded? key.size digest
  let c := block.toNatBE
  let m := decrypt key c
  guard (powMod m key.exponent key.modulus = c)
  return Bytes.ofNatBE key.size m

def verify (key : PublicKey) (digest signature : Bytes) : Bool :=
  let s := signature.toNatBE
  s < key.modulus && signature.size == key.size &&
    padded? key.size digest == some (Bytes.ofNatBE key.size (powMod s key.exponent key.modulus))

end CliImage.Rsa
