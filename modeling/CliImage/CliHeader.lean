import CliImage.Reader
import CliImage.Span

/-!
The CLI header of an image, 72 bytes.
-/

namespace CliImage

structure CliHeader where
  size : UInt32
  majorRuntime : UInt16
  minorRuntime : UInt16
  metadata : Span
  flags : UInt32
  entryPoint : Token
  resources : Span
  strongName : Span
  codeManager : Span
  vtableFixups : Span
  exportJumps : Span
  native : Span
  deriving DecidableEq, Repr, Inhabited

namespace CliHeader

def encodedSize : Nat := 72

def strongNameSigned : UInt32 := 0x8

def nativeEntryPoint : UInt32 := 0x10

def flagNames : List (Nat × String) := [
  (0x1, "IL_ONLY"), (0x2, "REQUIRED_32BIT"), (0x8, "STRONG_NAME_SIGNED"),
  (0x10, "NATIVE_ENTRYPOINT"), (0x10000, "TRACK_DEBUG_DATA"), (0x20000, "PREFERRED_32BIT")]

def readSpan : Reader Span := do
  let rva ← Reader.u32
  let size ← Reader.u32
  pure ⟨rva, size⟩

def reader : Reader CliHeader := do
  if (← Reader.data).size < encodedSize then Reader.fail .outOfBounds
  let size ← Reader.u32
  if size.toNat ≠ encodedSize then Reader.fail (.fault (.cliHeaderSize size))
  let majorRuntime ← Reader.u16
  let minorRuntime ← Reader.u16
  let metadata ← readSpan
  if metadata.rva = 0 ∨ metadata.size = 0 then Reader.fail (.fault .noMetadata)
  let flags ← Reader.u32
  let entryPoint ← Token.mk <$> Reader.u32
  let resources ← readSpan
  let strongName ← readSpan
  let codeManager ← readSpan
  let vtableFixups ← readSpan
  let exportJumps ← readSpan
  let native ← readSpan
  pure { size, majorRuntime, minorRuntime, metadata, flags, entryPoint, resources, strongName,
         codeManager, vtableFixups, exportJumps, native }

def read (data : Bytes) : Result CliHeader := reader.run data

/-- Whether the entry point is a token and not the address of native code. -/
def hasManagedEntryPoint (header : CliHeader) : Bool :=
  header.flags &&& nativeEntryPoint == 0 && !header.entryPoint.isNull

def encodeSpan (span : Span) : Bytes := Bytes.ofUInt32 span.rva ++ Bytes.ofUInt32 span.size

def encode (header : CliHeader) : Bytes :=
  Bytes.ofUInt32 header.size ++ Bytes.ofUInt16 header.majorRuntime
    ++ Bytes.ofUInt16 header.minorRuntime ++ encodeSpan header.metadata
    ++ Bytes.ofUInt32 header.flags ++ Bytes.ofUInt32 header.entryPoint.value
    ++ encodeSpan header.resources ++ encodeSpan header.strongName
    ++ encodeSpan header.codeManager ++ encodeSpan header.vtableFixups
    ++ encodeSpan header.exportJumps ++ encodeSpan header.native

end CliHeader

end CliImage
