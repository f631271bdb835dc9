import CliImage.Pe.Section
import CliImage.Span

/-!
The headers of a PE file, up to and with the section table.
-/

namespace CliImage

structure OptionalHeader where
  isPlus : Bool
  sectionAlignment : Nat
  fileAlignment : Nat
  headersSize : Nat
  directories : List Span
  deriving DecidableEq, Repr, Inhabited

structure PeHeaders where
  peOffset : Nat
  optionalSize : Nat
  optional : Option OptionalHeader
  sections : List Section
  deriving DecidableEq, Repr, Inhabited

namespace PeHeaders

def coffOffset (h : PeHeaders) : Nat := h.peOffset + 4

def optionalOffset (h : PeHeaders) : Nat := h.peOffset + 24

def checksumOffset (h : PeHeaders) : Nat := h.optionalOffset + 64

def sectionTableOffset (h : PeHeaders) : Nat := h.optionalOffset + h.optionalSize

/-- The directories stand behind the fixed part of the optional header. -/
def fixedSize (isPlus : Bool) : Nat := if isPlus then 112 else 96

def directoryOffset (h : PeHeaders) (isPlus : Bool) (index : Nat) : Nat :=
  h.optionalOffset + fixedSize isPlus + 8 * index

def readSpan (data : Bytes) (offset : Nat) : Span :=
  ⟨UInt32.ofNat (data.natAt offset 4), UInt32.ofNat (data.natAt (offset + 4) 4)⟩

def magicIsPlus? (data : Bytes) (offset : Nat) : Option Bool :=
  if data.size < offset + 2 then none
  else
    match data.natAt offset 2 with
    | 0x10B => some false
    | 0x20B => some true
    | _ => none

def readOptional (data : Bytes) (offset : Nat) : Option OptionalHeader := do
  let isPlus ← magicIsPlus? data offset
  let fixedEnd := offset + fixedSize isPlus
  guard (fixedEnd ≤ data.size)
  let count := data.natAt (fixedEnd - 4) 4
  guard (count ≤ 16 ∧ fixedEnd + 8 * count ≤ data.size)
  return {
    isPlus
    sectionAlignment := data.natAt (offset + 32) 4
    fileAlignment := data.natAt (offset + 36) 4
    headersSize := data.natAt (offset + 60) 4
    directories := (List.range count).map fun i => readSpan data (fixedEnd + 8 * i) }

def isDigit (b : UInt8) : Bool := 0x30 ≤ b && b ≤ 0x39

/-- A digit of six bits: a letter, a decimal digit, a plus sign or a slash. -/
def isDigit64 (b : UInt8) : Bool :=
  isDigit b || (0x41 ≤ b && b ≤ 0x5A) || (0x61 ≤ b && b ≤ 0x7A) || b == 0x2B || b == 0x2F

/-- Whether bytes are one digit or more, perhaps behind a plus sign. -/
def isDecimal : List UInt8 → Bool
  | 0x2B :: b :: rest => (b :: rest).all isDigit
  | b :: rest => (b :: rest).all isDigit
  | [] => false

/-- Whether bytes tell the place of a long name: in decimal, or behind a second slash in digits of
six bits. -/
def isLongNamePlace : List UInt8 → Bool
  | 0x2F :: digits => digits.all isDigit64
  | digits => isDecimal digits

/-- A section name that starts with a slash goes on as the place of a longer name. Nothing need
stand at that place. -/
def nameAllowed (data : Bytes) (offset : Nat) : Bool :=
  data.getD offset 0 != 0x2F
    || isLongNamePlace (Utf8.untilZero (data.extract (offset + 1) (offset + 8))).toList

/-- Where there are no sections the table may lie anywhere. -/
def readSections (data : Bytes) (offset count : Nat) : Option (List Section) :=
  if data.size / Section.headerSize < count ∨
      (count ≠ 0 ∧ data.size < offset + Section.headerSize * count) then
    none
  else
    let offsets := (List.range count).map fun i => offset + Section.headerSize * i
    if offsets.all (nameAllowed data) then some (offsets.map (Section.readAt data)) else none

def read (data : Bytes) : Option PeHeaders := do
  guard (0x40 ≤ data.size ∧ data.natAt 0 2 = 0x5A4D)
  let peOffset := data.natAt 0x3C 4
  guard (0x40 ≤ peOffset ∧ peOffset + 24 ≤ data.size ∧ data.natAt peOffset 4 = 0x4550)
  let optionalSize := data.natAt (peOffset + 20) 2
  let optional ←
    if optionalSize = 0 then some none else some <$> readOptional data (peOffset + 24)
  let sections ← readSections data (peOffset + 24 + optionalSize) (data.natAt (peOffset + 6) 2)
  return { peOffset, optionalSize, optional, sections }

end PeHeaders

end CliImage
