import CliImage.CliHeader
import CliImage.Pe.File
import CliImage.StrongName.Key

/-!
Strong name signatures: the digest of an image without its signature and its checksum, signing and
checking.
-/

namespace CliImage.StrongName

/-- A range of file offsets. -/
structure Range where
  start : Nat
  stop : Nat
  deriving DecidableEq, Repr, Inhabited

def Range.length (r : Range) : Nat := r.stop - r.start

/-- The headers as they are hashed: without the checksum and the certificate directory. -/
def hashedHeaders (data : Bytes) (h : PeHeaders) (o : OptionalHeader) : Result Bytes := do
  let headers ← data.slice 0 (h.sectionTableOffset + h.sections.length * Section.headerSize)
  let headers ← headers.put h.checksumOffset (Bytes.zeros 4)
  headers.put (h.directoryOffset o.isPlus PeFile.certificateDirectory) (Bytes.zeros 8)

/-- A section's raw data, without the signature if that lies in it. -/
def hashedSection (data : Bytes) (signature : Range) (s : Section) : Result Bytes := do
  let raw ← data.slice s.rawStart s.rawSize.toNat
  if s.rawStart ≤ signature.start ∧ signature.stop ≤ s.rawEnd then
    .ok (raw.extract 0 (signature.start - s.rawStart)
      ++ raw.extract (signature.stop - s.rawStart) raw.size)
  else .ok raw

/-- What the signature covers. -/
def hashedContent (data : Bytes) (signature : Range) : Result Bytes := do
  let some h := PeHeaders.accept data | throw .container
  let some o := h.optional | throw (.fault .noOptionalHeader)
  let headers ← hashedHeaders data h o
  h.sections.foldlM (fun done s => do .ok (done ++ (← hashedSection data signature s))) headers

def digest (data : Bytes) (signature : Range) : Result Bytes := do
  .ok (Hash.Sha1.sha1 (← hashedContent data signature))

/-- Writes the signature into its range. -/
def sign (data : Bytes) (signature : Range) (pair : KeyPair) : Result Bytes := do
  if signature.length ≠ pair.signatureSize then
    throw (.key (.signatureSize signature.length pair.signatureSize))
  let digest ← digest data signature
  data.put signature.start (← pair.sign digest)

/-- Whether the file has a signature that a public key confirms. -/
def verify (file : PeFile) (publicKey : Bytes) : Result Bool := do
  let cli ← CliHeader.read (← file.slice file.cli.rva.toNat file.cli.size.toNat)
  if cli.strongName.rva = 0 ∨ cli.strongName.size = 0 then return false
  let start ← file.offsetOf cli.strongName.rva.toNat
  let stored ← file.data.slice start cli.strongName.size.toNat
  let digest ← digest file.data ⟨start, start + cli.strongName.size.toNat⟩
  let key ← readPublicKey publicKey
  return Rsa.verify key digest stored.reverse

end CliImage.StrongName
