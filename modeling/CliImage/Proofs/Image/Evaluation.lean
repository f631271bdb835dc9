import CliImage.Image.Basic
import CliImage.Image.Read
import CliImage.Layout.Plan
import CliImage.Proofs.Edit
import CliImage.Symbols.PdbChecksum

/-! Reading an image and laying it out in a form that is evaluated fast: a byte is the head of a tail
of the data, which is the tail of the tail in front of it and is evaluated once for all that is read
there. -/

namespace CliImage

namespace Bytes

/-- The number that `w` bytes at an offset spell, each of them the head of a tail. -/
def natByTails (data : Bytes) (offset : Nat) : Nat → Nat
  | 0 => 0
  | w + 1 => ((Nat.repeat List.tail offset data.toList).headD 0).toNat +
      256 * natByTails data (offset + 1) w

lemma repeat_tail (n : Nat) (bs : List UInt8) : Nat.repeat List.tail n bs = bs.drop n := by
  induction n with
  | zero => rfl
  | succ n ih => rw [Nat.repeat, ih, List.tail_drop]

lemma natAt_eq_natByTails : natAt = natByTails := by
  funext data offset w
  induction w generalizing offset with
  | zero => rfl
  | succ w ih =>
    rw [natAt, natByTails, ih, repeat_tail, List.headD_eq_head?_getD, List.head?_drop,
      Array.getD_eq_getD_getElem?, Array.getElem?_toList]

end Bytes

open Bytes

-- in each pair the second is the first one unfolded down to the bytes, with these taken from lists;
-- it is found as what the equation comes to

/-- The headers as they are read, number by number, by tails. -/
def PeFile.readByTails : { read : Bytes → Result PeFile // PeFile.read = read } :=
  ⟨_, by
    delta PeFile.read PeHeaders.accept PeHeaders.directoriesOk PeHeaders.debugDirectoryOk
      PeHeaders.debugEntriesOk PeHeaders.cliDirectoryOk PeHeaders.codeViewOk PeHeaders.read
      PeHeaders.readOptional PeHeaders.readSections PeHeaders.magicIsPlus? PeHeaders.readSpan
      Section.readAt
    rw [natAt_eq_natByTails]⟩

/-- The image as it is read by tails, its parts cut out as lists. -/
def Image.readByTails : { read : Nat → Bytes → Result Image // Image.read = read } :=
  ⟨_, by
    delta Image.read Image.parse PeFile.slice Metadata.read Metadata.place Metadata.streamData
      Root.read PdbHeader.read Tables.read CliHeader.read PeFile.readMethod PeFile.readBody
      Metadata.stringCell Strings.get
    simp only [slice_eq_take, extract_eq_take]
    rw [PeFile.readByTails.2, natAt_eq_natByTails]⟩

/-- The symbols as they are attached, read by tails. -/
def Image.attachByTails :
    { attach : Image → String → Bytes → Result Image // Image.attach = attach } :=
  ⟨_, by
    delta Image.attach Symbols.read Symbols.parse Metadata.read Metadata.place Metadata.streamData
      Root.read PdbHeader.read Tables.read PeFile.codeViewGuid PeFile.debugEntries
      DebugEntry.readAt
    simp only [slice_eq_take, extract_eq_take]
    rw [natAt_eq_natByTails]⟩

/-- The bytes of the metadata, put together as lists. -/
def Metadata.encodeByLists :
    { encode : Metadata → Result (Bytes × Metadata) // Metadata.encode = encode } :=
  ⟨_, by
    delta Metadata.encode encodeSlot Root.encode StreamHeader.appendTo Tables.encode
      Tables.encodeHeader PdbHeader.encode padTo
    simp only [append_eq_toArray]
    rfl⟩

/-- The bytes as they are laid out and changed, as lists. -/
def LayoutPlan.buildByTails :
    { build : LayoutPlan → PeFile → MetaSection → Result Bytes // LayoutPlan.build = build } :=
  ⟨_, by
    delta LayoutPlan.build place updateSectionTable updateHeaders updateDebugDirectory shiftPointer
      Edit.numberAt
    simp only [extract_eq_take, append_eq_toArray, Edit.put_eq_take]
    rw [natAt_eq_natByTails]⟩

/-- The hashes of the PDB as they are renewed, in bytes that are lists. -/
def PdbChecksum.updateByTails :
    { renew : PeFile → LayoutPlan → Bytes → Nat → Edit Unit // update = renew } :=
  ⟨_, by
    delta update updateEntry PeFile.debugEntries DebugEntry.readAt DebugEntry.payload
    simp only [slice_eq_take, Edit.put_eq_take]
    rw [natAt_eq_natByTails]⟩

end CliImage
