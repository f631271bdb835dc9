import CliImage.Proofs.Metadata.RoundTrip
import CliImage.Symbols.Portable
import CliImage.Symbols.Renumber

/-! When a PDB belongs to an image, and that one does that is written with the image's row counts. -/

namespace CliImage

/-- There are no debug rows or as many as there are methods. -/
def Metadata.DebugRows (methods : Nat) (m : Metadata) : Prop :=
  m.tables.count .methodDebugInformation = 0 ∨ m.tables.count .methodDebugInformation = methods

/-- Every table that a PDB counts has as many rows in the image. -/
def PdbHeader.Counts (header : PdbHeader) (image : Tables) : Prop :=
  ∀ slot ∈ maskSlots header.referenced, ∃ t, TableId.ofNumber? slot = some t ∧
    image.count t = header.rows.rows t

namespace Symbols

open Metadata (DebugRows)

variable {path : String} {data : Bytes} {file : PeFile} {image : Tables} {header : PdbHeader}
  {symbols : Symbols}

lemma checkRows_eq_ok {slots : List Nat} : checkRows path header image slots = .ok () ↔
    ∀ slot ∈ slots, ∃ t, TableId.ofNumber? slot = some t ∧ image.count t = header.rows.rows t := by
  induction slots with
  | nil => simp [checkRows]
  | cons slot slots ih =>
    rw [checkRows, List.forall_mem_cons, ← ih]
    cases TableId.ofNumber? slot with
    | none => simp
    | some t =>
      simp only [Option.some.injEq, exists_eq_left']
      split <;> simp [*]

/-- What makes a PDB one of an image. -/
lemma parse_eq_ok : parse path data file image = .ok symbols ↔
    data.extract 0 windowsSignature.size ≠ windowsSignature ∧ ∃ m header,
      Metadata.read data = .ok m ∧ m.pdb = some header ∧
      (∃ guid, file.codeViewGuid = .ok guid ∧ ∀ g, guid = some g → g = header.guid) ∧
      header.Counts image ∧ DebugRows (image.count .methodDef) m ∧ symbols = ⟨path, m⟩ := by
  have hrest (m : Metadata) (header : PdbHeader) : (do
      checkRows path header image (maskSlots header.referenced)
      let rows := m.tables.count .methodDebugInformation
      if rows ≠ 0 ∧ rows ≠ image.count .methodDef then
        throw (.pdb path (.debugRows rows (image.count .methodDef)))
      .ok ⟨path, m⟩ : Result Symbols) = .ok symbols ↔
        header.Counts image ∧ DebugRows (image.count .methodDef) m ∧ symbols = ⟨path, m⟩ := by
    simp only [Result.bind_eq_ok, Result.unless_throw_eq_ok]
    rw [Unique.exists_iff]
    refine and_congr checkRows_eq_ok (and_congr ?_ ?_)
    · rw [DebugRows]
      omega
    · rw [Except.ok.injEq, eq_comm]
  unfold parse
  simp only [Result.unless_throw_eq_ok, Result.bind_eq_ok]
  refine and_congr_right fun _ => exists_congr fun m => ?_
  cases hpdb : m.pdb with
  | none => simp
  | some header =>
    simp only [Option.some.injEq, exists_and_left, exists_eq_left']
    refine and_congr_right fun _ => ?_
    cases file.codeViewGuid with
    | error e => simp
    | ok guid =>
      rw [Result.ok_bind]
      cases guid with
      | none => simpa using hrest m header
      | some guid =>
        simp only
        rw [Result.unless_throw_eq_ok, hrest m header]
        simp

/-- Metadata does not begin as the other kind of PDB does. -/
lemma not_windows {m : Metadata} (h : Metadata.read data = .ok m) :
    data.extract 0 windowsSignature.size ≠ windowsSignature := by
  obtain ⟨_, hroot, -⟩ := Metadata.read_eq_ok h
  unfold Root.read at hroot
  obtain ⟨hsize, hroot⟩ := Result.unless_throw_eq_ok.mp hroot
  obtain ⟨hmagic, -⟩ := Result.unless_throw_eq_ok.mp hroot
  intro hwindows
  have hfirst : windowsSignature.natAt 0 4 = 0x7263694D := by decide +kernel
  have hlength : windowsSignature.size = 32 := by decide +kernel
  have hle := congrArg Array.size hwindows
  rw [Array.size_extract] at hle
  have hstands := Bytes.standsAt_extract (Nat.zero_le windowsSignature.size)
    (show windowsSignature.size ≤ data.size by omega)
  rw [hwindows] at hstands
  have hnat := hstands.natAt (i := 0) (w := 4) (by omega)
  rw [hnat, hfirst] at hmagic
  exact hmagic (by decide)

end Symbols

namespace PdbHeader

variable {header : PdbHeader} {image : Tables}

/-- The header with the row counts of an image. -/
def refreshed (header : PdbHeader) (image : Tables) : PdbHeader :=
  { header with
    rows := (maskSlots header.referenced).foldl
      (fun rows slot => rows.setIfInBounds slot (image.counts.toArray.getD slot 0)) header.rows }

lemma getElem_refreshed {slot : Nat} (hslot : slot < 64) : (header.refreshed image).rows[slot] =
    if slot ∈ maskSlots header.referenced then image.countAt slot else header.rows[slot] := by
  have hset := @RowCounts.getElem_foldl_set (maskSlots header.referenced)
    (fun slot => image.counts.toArray.getD slot 0) slot hslot header.rows
  rw [List.foldl_map] at hset
  refine hset.trans (if_congr Iff.rfl ?_ rfl)
  rw [← image.getElem_counts hslot, Array.getD_eq_getD_getElem?, Vector.getElem?_toArray,
    Vector.getElem?_eq_getElem hslot, Option.getD_some]

lemma Formed.refreshed (h : header.Formed) : (header.refreshed image).Formed := by
  intro slot hlt hslot
  exact (getElem_refreshed hlt).trans ((if_neg hslot).trans (h slot hlt hslot))

/-- Every table that is counted has as many rows in the image, once the counts are refreshed. -/
lemma counts_refreshed
    (hknown : ∀ slot ∈ maskSlots header.referenced, (TableId.ofNumber? slot).isSome)
    (hcount : ∀ t, image.count t < 2 ^ 32) : (header.refreshed image).Counts image := by
  intro slot hslot
  obtain ⟨t, ht⟩ := Option.isSome_iff_exists.mp (hknown slot hslot)
  obtain rfl := TableId.number_of_ofNumber? ht
  refine ⟨t, ht, ?_⟩
  have hlt := t.number_lt
  have hrows : (header.refreshed image).rows[t.number] = _ := getElem_refreshed hlt
  rw [if_pos (show t.number ∈ maskSlots header.referenced from hslot),
    Tables.countAt_number] at hrows
  rw [RowCounts.rows_eq, hrows]
  exact (UInt32.toNat_ofNat_of_lt' (hcount t)).symm

end PdbHeader

namespace Metadata

variable {m : Metadata} {image : Tables} {bytes : Bytes} {header : PdbHeader} {start : Nat}

/-- The id of a PDB stands where its root tells of the #Pdb stream. -/
lemma extract_id {data : Bytes} (h : read data = .ok m) {stream : StreamHeader}
    (hstream : m.root.streams.find? (·.name == "#Pdb") = some stream) (hpdb : m.pdb = some header) :
    stream.offset.toNat + 20 ≤ data.size ∧
      data.extract stream.offset.toNat (stream.offset.toNat + 20) = header.id.toArray := by
  obtain ⟨_, -, hread, -⟩ := read_eq_ok h
  rw [hstream] at hread
  obtain ⟨_, hread, hsame⟩ := hread
  obtain rfl := Option.some.inj (hpdb.symm.trans hsame)
  obtain ⟨hsize, hid⟩ := PdbHeader.extract_of_read hread
  rw [streamData, Array.size_extract] at hsize
  rw [streamData, Array.extract_extract, Nat.add_zero, Nat.min_eq_left (by omega)] at hid
  exact ⟨by omega, hid⟩

/-- A PDB that is written for an image reads back with that image's row counts, and with its id where
the writer takes it to be. -/
theorem read_of_encodePdb (hformed : m.Formed) (hversion : m.root.versionBytes.size % 4 = 0)
    (hslots : m.slots.length < 2 ^ 16) (h : m.encodePdb image = .ok (bytes, start))
    (hfit : bytes.size < 2 ^ 32) : ∃ again, read bytes = .ok again ∧
      again.pdb = m.pdb.map (·.refreshed image) ∧
      (∀ t, again.tables.count t = m.tables.count t) ∧
      ∃ stream, again.root.streams.find? (·.name == "#Pdb") = some stream ∧
        stream.offset.toNat = start := by
  obtain ⟨⟨data, written⟩, hencode, h⟩ := Result.bind_eq_ok.mp h
  have hdata : ∃ stream, written.root.streams.find? (·.name == "#Pdb") = some stream ∧
      data = bytes ∧ stream.offset.toNat = start := by
    simp only at h
    split at h
    · cases h
      exact ⟨_, ‹_›, rfl, rfl⟩
    · cases h
  obtain ⟨stream, hstream, rfl, hstart⟩ := hdata
  have hrefreshed : (m.refreshCounts image).Formed := by
    refine { hformed with pdb_mem := ?_, pdb := ?_ }
    · rw [refreshCounts, Option.isSome_map]
      exact hformed.pdb_mem
    · intro header hheader
      obtain ⟨old, hold, rfl⟩ := Option.map_eq_some_iff.mp hheader
      exact (hformed.pdb old hold).refreshed
  obtain ⟨_, _, -, hwritten, -, -⟩ := encode_eq_ok hrefreshed hencode
  refine ⟨_, read_of_encode hrefreshed hversion hslots hencode hfit, ?_, fun t => ?_, stream, hstream,
    hstart⟩
  · rw [hwritten]
    rfl
  · rw [hwritten]
    rfl

end Metadata

end CliImage
