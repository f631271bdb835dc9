import CliImage.Bytes.Access
import CliImage.Bytes.Window
import CliImage.Pe.Container

/-!
A PE file with a CLI header, and the two ways between addresses and file offsets.
-/

namespace CliImage

structure PeFile where
  data : Bytes
  headers : PeHeaders
  optional : OptionalHeader

namespace PeFile

def certificateDirectory : Nat := 4

def debugDirectory : Nat := 6

def cliDirectory : Nat := 14

def read (data : Bytes) : Result PeFile :=
  if data.isEmpty then .error .empty
  else
    match PeHeaders.accept data with
    | none => .error .container
    | some headers =>
      match headers.optional with
      | none => .error (.fault .noOptionalHeader)
      | some optional =>
        if (PeHeaders.directory? optional cliDirectory).isNone then .error (.fault .noCliDirectory)
        else if optional.fileAlignment = 0 ∨ optional.sectionAlignment = 0 then
          .error (.fault .zeroAlignment)
        else if (optional.directories[cliDirectory]?).all fun d => d.rva ≠ 0 ∧ d.size ≠ 0 then
          .ok { data, headers, optional }
        else .error (.fault .noCliDirectory)

variable (file : PeFile)

def sections : List Section := file.headers.sections

def headersSize : Nat := file.optional.headersSize

def fileAlignment : Nat := file.optional.fileAlignment

def sectionAlignment : Nat := file.optional.sectionAlignment

def directoryOffset (index : Nat) : Result Nat :=
  if index < file.optional.directories.length then
    .ok (file.headers.directoryOffset file.optional.isPlus index)
  else .error (.fault (.directoryAbsent index))

/-- A directory that has an address and a size. -/
def directory? (index : Nat) : Option Span :=
  file.optional.directories[index]?.filter fun d => d.rva ≠ 0 ∧ d.size ≠ 0

def cli : Span := (file.directory? cliDirectory).getD ⟨0, 0⟩

/-- Where the raw data of the last section ends. -/
def endOfSections : Nat :=
  match (file.sections.map Section.rawEnd).max? with
  | some stop => stop
  | none => file.headersSize

/-- The first section that an address lies in. -/
def sectionOf? (rva : Nat) : Option Section := file.sections.find? fun s => s.Contains rva

/-- An address in no section may still lie in the headers. -/
def offsetOf (rva : Nat) : Result Nat :=
  if 2 ^ 32 ≤ rva then .error (.fault (.rvaTooLarge rva))
  else
    match file.sectionOf? rva with
    | some s =>
      if rva - s.start < s.rawSize.toNat then .ok (s.rawStart + (rva - s.start))
      else .error (.fault (.rvaUninitialized rva s.name))
    | none =>
      if rva < file.headersSize then .ok rva else .error (.fault (.rvaUnmapped rva))

def rvaOf (offset : Nat) : Result Nat :=
  match file.sections.find? fun s => s.rawStart ≤ offset && offset < s.rawEnd with
  | some s => .ok (offset - s.rawStart + s.start)
  | none => .error (.fault (.offsetUnmapped offset))

def slice (rva len : Nat) : Result Bytes := do
  file.data.slice (← file.offsetOf rva) len

/-- Where the section of an address ends in the file. -/
def sectionEnd (rva : Nat) : Nat :=
  match file.sectionOf? rva with
  | some s => s.rawEnd
  | none => file.data.size

/-- The bytes from an address to the end of its section. -/
def tail (rva : Nat) : Result Window := do
  let offset ← file.offsetOf rva
  if h : offset ≤ file.data.size then
    let stop := max offset (min (file.sectionEnd rva) file.data.size)
    .ok ⟨file.data, offset, stop, Nat.le_max_left .., Nat.max_le.mpr ⟨h, Nat.min_le_right ..⟩⟩
  else .error .outOfBounds

end PeFile

end CliImage
