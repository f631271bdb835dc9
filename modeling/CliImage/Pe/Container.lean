import CliImage.Pe.Headers

/-!
Which PE files are accepted: the parts that the data directories point at must be where they say.
-/

namespace CliImage.PeHeaders

def isPowerOfTwo (n : Nat) : Bool := n != 0 && n &&& (n - 1) == 0

/-- How far a section reaches in memory for what the directories point at: its raw data rounded up,
but no farther than its virtual size. -/
def reach (s : Section) (fileAlignment : Nat) : Nat :=
  if s.rawSize = 0 then 0
  else
    let raw := alignUp s.rawEnd fileAlignment - s.rawStart / 0x200 * 0x200
    let page := min raw (alignUp s.rawSize.toNat 0x1000)
    if s.virtualSize = 0 then page else min page (alignUp s.virtualSize.toNat 0x1000)

def find (h : PeHeaders) (o : OptionalHeader) (rva : Nat) : Option Nat :=
  if isPowerOfTwo o.fileAlignment then
    (h.sections.find? fun s => s.start ≤ rva && rva < s.start + reach s o.fileAlignment).map
      fun s => s.rawStart + rva - s.start
  else none

/-- A directory counts unless both of its numbers are zero. -/
def directory? (o : OptionalHeader) (index : Nat) : Option Span :=
  o.directories[index]?.filter fun d => d.rva ≠ 0 ∨ d.size ≠ 0

def certificateType (n : Nat) : Bool := 1 ≤ n && n ≤ 4

def certificateRevision (n : Nat) : Bool := n == 0x100 || n == 0x200

/-- The certificates from one place to another; each takes eight bytes or more. -/
def certificatesOk (data : Bytes) (stop : Nat) : Nat → Nat → Bool
  | 0, _ => true
  | room + 1, offset =>
    if stop ≤ offset then true
    else
      let rest := data.natAt offset 4 - 8
      offset + 8 + rest ≤ data.size && certificateRevision (data.natAt (offset + 4) 2)
        && certificateType (data.natAt (offset + 6) 2)
        && certificatesOk data stop room (alignUp (offset + 8 + rest) 8)

def certificateTableOk (data : Bytes) (d : Span) : Bool :=
  let stop := d.rva.toNat + d.size.toNat
  stop ≤ data.size && certificatesOk data stop data.size d.rva.toNat

/-- A record that tells where the symbols are: a known one must be whole. -/
def codeViewOk (data : Bytes) (size pointer : Nat) : Bool :=
  24 ≤ size && pointer + 4 ≤ data.size &&
    match data.natAt pointer 4 with
    | 0x53445352 => pointer + size ≤ data.size
    | 0x3031424E => pointer + size ≤ data.size
    | _ => true

def reproducibleOk (data : Bytes) (size pointer : Nat) : Bool :=
  size == 0 || (pointer + 4 ≤ data.size && pointer + 4 + data.natAt pointer 4 ≤ data.size)

/-- What the first entry of each known kind points at must be there. -/
def debugEntriesOk (data : Bytes) (offset count : Nat) : Bool :=
  let entries := (List.range count).map fun i => offset + 28 * i
  let check (kind : Nat) (ok : Nat → Nat → Bool) : Bool :=
    match entries.find? fun e => data.natAt (e + 12) 4 == kind with
    | some e => ok (data.natAt (e + 16) 4) (data.natAt (e + 24) 4)
    | none => true
  check 2 (codeViewOk data) && check 16 (reproducibleOk data)

def debugDirectoryOk (h : PeHeaders) (o : OptionalHeader) (data : Bytes) (d : Span) : Bool :=
  match h.find o d.rva.toNat with
  | none => false
  | some offset =>
    offset + d.size.toNat ≤ data.size && debugEntriesOk data offset (d.size.toNat / 28)

/-- The CLI header must be there, and with it the version text of the metadata. -/
def cliDirectoryOk (h : PeHeaders) (o : OptionalHeader) (data : Bytes) (d : Span) : Bool :=
  match h.find o d.rva.toNat with
  | none => false
  | some offset =>
    offset + 72 ≤ data.size &&
      match h.find o (data.natAt (offset + 8) 4) with
      | none => false
      | some metadata =>
        let length := data.natAt (metadata + 12) 4
        metadata + data.natAt (offset + 12) 4 ≤ data.size && metadata + 16 ≤ data.size
          && metadata + 16 + length + 4 ≤ data.size
          && (Utf8.decode? (data.extract (metadata + 16) (metadata + 16 + length))).isSome

def directoriesOk (h : PeHeaders) (data : Bytes) : Bool :=
  match h.optional with
  | none => true
  | some o =>
    (directory? o 4).all (certificateTableOk data) && (directory? o 6).all (h.debugDirectoryOk o data)
      && (directory? o 14).all (h.cliDirectoryOk o data)

/-- The headers of a file that is accepted. -/
def accept (data : Bytes) : Option PeHeaders := (read data).filter (·.directoriesOk data)

end CliImage.PeHeaders
