import CliImage.Reader
import CliImage.StrongName.Rsa

/-!
Strong name keys: the file of a key pair, and the public key as an assembly stores it.
-/

namespace CliImage

/-- A key pair whose parts fit together. -/
structure KeyPair where
  key : Rsa.PrivateKey
  deriving DecidableEq, Repr

namespace StrongName

def publicBlob : UInt8 := 0x06

def privateBlob : UInt8 := 0x07

def signAlgorithm : UInt32 := 0x2400

def exchangeAlgorithm : UInt32 := 0xA400

def hashAlgorithm : UInt32 := 0x8004

def publicMagic : UInt32 := 0x31415352

def privateMagic : UInt32 := 0x32415352

def readComponent (size : Nat) : Reader Nat := Bytes.toNat <$> Reader.bytes size

/-- The numbers of a key pair; three that follow from the primes are skipped. -/
def readNumbers : Reader Rsa.PrivateKey := do
  let bits ← UInt32.toNat <$> Reader.u32
  if bits = 0 ∨ bits % 16 ≠ 0 then Reader.fail (.key (.length bits))
  let exponent ← UInt32.toNat <$> Reader.u32
  let modulus ← readComponent (bits / 8)
  let p ← readComponent (bits / 16)
  let q ← readComponent (bits / 16)
  let _ ← Reader.bytes (bits / 16)
  let _ ← Reader.bytes (bits / 16)
  let _ ← Reader.bytes (bits / 16)
  let secret ← readComponent (bits / 8)
  pure { modulus, exponent, secret, p, q }

def keyReader : Reader KeyPair := do
  let kind ← Reader.u8
  let version ← Reader.u8
  let _ ← Reader.u16
  let algorithm ← Reader.u32
  if kind = publicBlob ∨ algorithm = hashAlgorithm then Reader.fail (.key .publicOnly)
  if kind ≠ privateBlob ∨ version ≠ 2 then Reader.fail (.key (.notPrivate kind version))
  if algorithm ≠ signAlgorithm ∧ algorithm ≠ exchangeAlgorithm then
    Reader.fail (.key (.algorithm algorithm))
  let magic ← Reader.u32
  if magic ≠ privateMagic then Reader.fail (.key (.magic magic))
  let key ← readNumbers
  if key.Sound then pure ⟨key⟩ else Reader.fail (.key .inconsistent)

/-- A key file that ends early is a bad key like any other. -/
def asKeyError : Error → Error
  | .key f => .key f
  | _ => .key .truncated

end StrongName

namespace KeyPair

def read (data : Bytes) : Result KeyPair :=
  (StrongName.keyReader.run data).mapError StrongName.asKeyError

def signatureSize (pair : KeyPair) : Nat := pair.key.size

/-- The public key with its algorithms and sizes, lowest byte first. -/
def publicKey (pair : KeyPair) : Bytes :=
  let modulus := Bytes.ofLongNat pair.signatureSize pair.key.modulus
  Bytes.ofUInt32 StrongName.signAlgorithm ++ Bytes.ofUInt32 StrongName.hashAlgorithm
    ++ Bytes.ofNat 4 (20 + modulus.size) ++ #[StrongName.publicBlob, 2, 0, 0]
    ++ Bytes.ofUInt32 StrongName.signAlgorithm ++ Bytes.ofUInt32 StrongName.publicMagic
    ++ Bytes.ofNat 4 (8 * modulus.size) ++ Bytes.ofNat 4 pair.key.exponent ++ modulus

/-- The signature of a digest, lowest byte first. -/
def sign (pair : KeyPair) (digest : Bytes) : Result Bytes :=
  match Rsa.sign? pair.key digest with
  | some signature => .ok signature.reverse
  | none => .error (.key .signing)

def text (pair : KeyPair) : String :=
  "StrongNameKey \x7b bits: " ++ toString (8 * pair.signatureSize) ++ ", .. \x7d"

end KeyPair

namespace StrongName

def publicKeyReader : Reader Rsa.PublicKey := do
  let _ ← Reader.bytes 12
  let kind ← Reader.u8
  let _ ← Reader.bytes 7
  let magic ← Reader.u32
  if kind ≠ publicBlob ∨ magic ≠ publicMagic then Reader.fail (.key .notPublic)
  let bits ← UInt32.toNat <$> Reader.u32
  let exponent ← UInt32.toNat <$> Reader.u32
  let modulus ← readComponent (bits / 8)
  let key : Rsa.PublicKey := ⟨modulus, exponent⟩
  if key.Sound ∧ key.modulus < Rsa.PublicKey.sizeLimit then pure key
  else Reader.fail (.key .unusable)

/-- The public key in the form that an assembly stores. -/
def readPublicKey (blob : Bytes) : Result Rsa.PublicKey := publicKeyReader.run blob

end StrongName

end CliImage
