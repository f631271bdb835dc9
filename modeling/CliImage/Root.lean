import CliImage.Reader
import CliImage.Text.Utf8

/-!
The metadata root: signature, version text and the list of streams.
-/

namespace CliImage

/-- Where a stream lies, counted from the start of the metadata. -/
structure StreamHeader where
  offset : UInt32
  size : UInt32
  name : String
  deriving DecidableEq, Repr, Inhabited

namespace StreamHeader

def nameLimit : Nat := 32

/-- The name counts with its terminator and is padded to a multiple of four. -/
def encodedSize (header : StreamHeader) : Nat := 8 + alignUp (header.name.utf8ByteSize + 1) 4

def readAt (data : Bytes) (start : Nat) : Result StreamHeader :=
  if data.size < start + 9 then .error .outOfBounds
  else
    let name := data.extract (start + 8) (start + 8 + nameLimit)
    match name.findIdx? (· == 0) with
    | none => .error (.fault .streamNameOpen)
    | some length =>
      match Utf8.decode? (name.extract 0 length) with
      | none => .error (.fault .streamNameText)
      | some text =>
        .ok ⟨UInt32.ofNat (data.natAt start 4), UInt32.ofNat (data.natAt (start + 4) 4), text⟩

/-- Appends the header and pads the whole. -/
def appendTo (header : StreamHeader) (done : Bytes) : Bytes :=
  (done ++ Bytes.ofUInt32 header.offset ++ Bytes.ofUInt32 header.size ++ Utf8.encode header.name
    ++ #[0]).padTo 4

end StreamHeader

structure Root where
  majorVersion : UInt16
  minorVersion : UInt16
  reserved : UInt32
  versionBytes : Bytes
  flags : UInt16
  streams : List StreamHeader
  deriving DecidableEq, Repr, Inhabited

namespace Root

def magic : UInt32 := 0x424A5342

def readStreams (data : Bytes) : Nat → Nat → Result (List StreamHeader)
  | 0, _ => .ok []
  | n + 1, offset =>
    if data.size ≤ offset then .error .outOfBounds
    else do
      let header ← StreamHeader.readAt data offset
      if data.size < header.offset.toNat + header.size.toNat ∨
          2 ^ 32 ≤ header.offset.toNat + header.size.toNat then
        throw (.fault (.streamRange header.name header.offset header.size))
      let rest ← readStreams data n (offset + header.encodedSize)
      .ok (header :: rest)

def read (data : Bytes) : Result Root := do
  if data.size < 20 then throw .outOfBounds
  let signature := UInt32.ofNat (data.natAt 0 4)
  if signature ≠ magic then throw (.fault (.rootMagic signature))
  let versionEnd := data.natAt 12 4 + 16
  if data.size < versionEnd + 4 then throw .outOfBounds
  let count := data.natAt (versionEnd + 2) 2
  if count = 0 then throw (.fault .noStreams)
  let streams ← readStreams data count (versionEnd + 4)
  .ok {
    majorVersion := UInt16.ofNat (data.natAt 4 2)
    minorVersion := UInt16.ofNat (data.natAt 6 2)
    reserved := UInt32.ofNat (data.natAt 8 4)
    versionBytes := data.extract 16 versionEnd
    flags := UInt16.ofNat (data.natAt versionEnd 2)
    streams }

/-- The version text up to its first zero byte. -/
def version (root : Root) : String :=
  Utf8.decodeLossy (Utf8.untilZero root.versionBytes)

def headerSize (root : Root) : Nat :=
  20 + root.versionBytes.size + (root.streams.map StreamHeader.encodedSize).foldr (· + ·) 0

def encode (root : Root) : Bytes :=
  let fixed := Bytes.ofUInt32 magic ++ Bytes.ofUInt16 root.majorVersion
    ++ Bytes.ofUInt16 root.minorVersion ++ Bytes.ofUInt32 root.reserved
    ++ Bytes.ofNat 4 root.versionBytes.size ++ root.versionBytes ++ Bytes.ofUInt16 root.flags
    ++ Bytes.ofNat 2 root.streams.length
  root.streams.foldl (fun done header => header.appendTo done) fixed

end Root

end CliImage
