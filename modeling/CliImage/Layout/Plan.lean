import CliImage.Layout.MetaSection
import CliImage.Renumber.Code
import CliImage.Symbols.Debug

/-!
Where everything lies in a file with one more section. What lies behind the headers moves up where
they have to grow.
-/

namespace CliImage

/-- The headers end at `oldHeaders` and grow by `growth`; `kept` bytes of the input stay. -/
structure LayoutPlan where
  oldHeaders : Nat
  growth : Nat
  kept : Nat
  sectionRva : UInt32
  sectionStart : Nat
  deriving DecidableEq, Repr, Inhabited

namespace LayoutPlan

/-- The end of the section table with the added header. -/
def tableEnd (file : PeFile) : Nat :=
  file.headers.sectionTableOffset + file.sections.length * Section.headerSize + Section.headerSize

/-- Whether nothing stands where the added header goes, as far as the headers reach. -/
def checkRoom (file : PeFile) : Result Unit := do
  let slot := tableEnd file - Section.headerSize
  let room ← file.data.slice slot (min (tableEnd file) file.headersSize - slot)
  if room.any (· != 0) then throw (.unsupported .headerData)
  .ok ()

def growthFor (file : PeFile) : Result Nat :=
  if file.headersSize < tableEnd file then
    let growth := alignUp (tableEnd file - file.headersSize) file.fileAlignment
    match (file.sections.map Section.start).min? with
    | some first =>
      if first < file.headersSize + growth then .error (.unsupported (.headerRoom first))
      else .ok growth
    | none => .ok growth
  else .ok 0

/-- The end of the image in memory. -/
def imageEnd (file : PeFile) : Nat :=
  match (file.sections.map fun s => s.start + s.extent).max? with
  | some stop => stop
  | none => file.headersSize

def ofFile (file : PeFile) : Result LayoutPlan := do
  checkRoom file
  let growth ← growthFor file
  let kept := min (max file.endOfSections file.headersSize) file.data.size
  let sectionRva := alignUp (imageEnd file) file.sectionAlignment
  if 2 ^ 32 ≤ sectionRva then throw (.unsupported .addressSpace)
  .ok {
    oldHeaders := file.headersSize, growth, kept, sectionRva := UInt32.ofNat sectionRva
    sectionStart := alignUp (kept + growth) file.fileAlignment }

variable (plan : LayoutPlan)

def grows : Bool := 0 < plan.growth

/-- Where an offset of the input lies in the output. -/
def shift (offset : Nat) : Nat := if plan.oldHeaders ≤ offset then offset + plan.growth else offset

/-- Where an address of the added section lies in the output. -/
def sectionOffset (rva : UInt32) : Nat := plan.sectionStart + (rva.toNat - plan.sectionRva.toNat)

/-- Where an address of the input's sections lies in the output. -/
def offset (file : PeFile) (rva : Nat) : Result Nat := do
  .ok (plan.shift (← file.offsetOf rva))

def rawSize (file : PeFile) (added : MetaSection) : Nat := alignUp added.data.size file.fileAlignment

/-- The input's bytes in their new places, and the added section. -/
def place (file : PeFile) (added : MetaSection) : Bytes :=
  let headers := min plan.oldHeaders plan.kept
  let moved := file.data.extract 0 headers ++ Bytes.zeros plan.growth
    ++ file.data.extract headers plan.kept
  moved ++ Bytes.zeros (plan.sectionStart - moved.size) ++ added.data
    ++ Bytes.zeros (rawSize file added - added.data.size)

/-- Moves a file pointer along with what it points at. -/
def shiftPointer (field : Nat) : Edit Unit := do
  let pointer ← Edit.numberAt field 4
  if pointer = 0 then pure () else Edit.put field (Bytes.ofNat 4 (plan.shift pointer))

def sectionHeader (file : PeFile) (added : MetaSection) : Bytes :=
  let name := Utf8.encode MetaSection.name
  name ++ Bytes.zeros (8 - name.size) ++ Bytes.ofNat 4 added.data.size
    ++ Bytes.ofUInt32 added.rva ++ Bytes.ofNat 4 (rawSize file added)
    ++ Bytes.ofNat 4 plan.sectionStart ++ Bytes.zeros 12
    ++ Bytes.ofUInt32 MetaSection.characteristics

/-- The fields of a section header that point into the file. -/
def pointerFields : List Nat := [20, 24, 28]

def updateSectionTable (file : PeFile) (added : MetaSection) : Edit Unit := do
  let table := file.headers.sectionTableOffset
  if plan.grows then
    (List.range file.sections.length).forM fun i =>
      pointerFields.forM fun field => plan.shiftPointer (table + i * Section.headerSize + field)
  Edit.put (table + file.sections.length * Section.headerSize) (plan.sectionHeader file added)

def updateHeaders (file : PeFile) (added : MetaSection) : Edit Unit := do
  let coff := file.headers.coffOffset
  let count ← Edit.numberAt (coff + 2) 2
  Edit.put (coff + 2) (Bytes.ofNat 2 (count + 1))
  if plan.grows then plan.shiftPointer (coff + 8)
  let optional := file.headers.optionalOffset
  let initialized ← Edit.numberAt (optional + 8) 4
  Edit.put (optional + 8) (Bytes.ofNat 4 (initialized + rawSize file added))
  Edit.put (optional + 56)
    (Bytes.ofNat 4 (alignUp (added.rva.toNat + added.data.size) file.sectionAlignment))
  Edit.put (optional + 60) (Bytes.ofNat 4 (plan.oldHeaders + plan.growth))
  if (file.directory? PeFile.certificateDirectory).isSome then do
    let entry ← Edit.lift (file.directoryOffset PeFile.certificateDirectory)
    Edit.put entry (Bytes.zeros 8)

def updateDebugDirectory (file : PeFile) : Edit Unit := do
  if plan.grows then do
    let entries ← Edit.lift file.debugEntries
    entries.forM fun e => plan.shiftPointer (plan.shift e.pointerOffset)

def build (file : PeFile) (added : MetaSection) : Result Bytes := do
  let ((), data) ← (do
    plan.updateSectionTable file added
    plan.updateHeaders file added
    plan.updateDebugDirectory file : Edit Unit).run (plan.place file added)
  .ok data

end LayoutPlan

end CliImage
