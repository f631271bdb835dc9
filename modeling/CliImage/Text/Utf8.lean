import CliImage.Bytes

/-!
UTF-8 text: strict decoding, and decoding that puts U+FFFD for every longest piece that no
character continues.
-/

namespace CliImage.Utf8

def decode? (data : Bytes) : Option String := String.fromUTF8? ⟨data⟩

def encode (text : String) : Bytes := text.toUTF8.data

def isContinuation (b : UInt8) : Bool := 0x80 ≤ b && b ≤ 0xBF

/-- How many bytes a character with this first byte has; none has zero. -/
def width (b : UInt8) : Nat :=
  if b < 0x80 then 1
  else if 0xC2 ≤ b && b ≤ 0xDF then 2
  else if 0xE0 ≤ b && b ≤ 0xEF then 3
  else if 0xF0 ≤ b && b ≤ 0xF4 then 4
  else 0

/-- Whether a second byte may follow a first one: no overlong form, no surrogate, nothing above
U+10FFFF. -/
def mayFollow (first second : UInt8) : Bool :=
  if first == 0xE0 then 0xA0 ≤ second && second ≤ 0xBF
  else if first == 0xED then 0x80 ≤ second && second ≤ 0x9F
  else if first == 0xF0 then 0x90 ≤ second && second ≤ 0xBF
  else if first == 0xF4 then 0x80 ≤ second && second ≤ 0x8F
  else isContinuation second

def replacement : Char := '\ufffd'

def low (b : UInt8) : Nat := b.toNat % 64

/-- The character at the front, or the replacement character, and how many bytes behind the first
belong to it. -/
def front (b : UInt8) (rest : List UInt8) : Char × Nat :=
  match width b, rest with
  | 1, _ => (Char.ofNat b.toNat, 0)
  | 2, c :: _ =>
    if mayFollow b c then (Char.ofNat (b.toNat % 32 * 64 + low c), 1) else (replacement, 0)
  | 3, c :: rest =>
    if mayFollow b c then
      match rest with
      | d :: _ =>
        if isContinuation d then (Char.ofNat ((b.toNat % 16 * 64 + low c) * 64 + low d), 2)
        else (replacement, 1)
      | [] => (replacement, 1)
    else (replacement, 0)
  | 4, c :: rest =>
    if mayFollow b c then
      match rest with
      | d :: rest =>
        if isContinuation d then
          match rest with
          | e :: _ =>
            if isContinuation e then
              (Char.ofNat (((b.toNat % 8 * 64 + low c) * 64 + low d) * 64 + low e), 3)
            else (replacement, 2)
          | [] => (replacement, 2)
        else (replacement, 1)
      | [] => (replacement, 1)
    else (replacement, 0)
  | _, _ => (replacement, 0)

def decodeLossyList : List UInt8 → List Char
  | [] => []
  | b :: rest =>
    let (c, used) := front b rest
    c :: decodeLossyList (rest.drop used)
termination_by bytes => bytes.length
decreasing_by
  simp only [List.length_drop, List.length_cons]
  omega

def decodeLossy (data : Bytes) : String := String.ofList (decodeLossyList data.toList)

def untilZero (data : Bytes) : Bytes :=
  match data.findIdx? (· == 0) with
  | some stop => data.extract 0 stop
  | none => data

end CliImage.Utf8
