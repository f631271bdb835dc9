import CliImage.Proofs.Output.Laid

/-! The debug directory of an output is that of its input with the file pointers moved; it names the
same PDB. -/

namespace CliImage

open Bytes

namespace PeFile

variable {file file' : PeFile} {entries entries' : List DebugEntry} {d : Span} {start : Nat}

/-- The entries of a debug directory stand in a row. -/
def entriesAt (data : Bytes) (start size : Nat) : List DebugEntry :=
  (List.range (size / DebugEntry.size)).map fun i =>
    DebugEntry.readAt data (start + DebugEntry.size * i)

lemma debugEntries_of_directory (hd : file.directory? debugDirectory = some d)
    (hstart : file.offsetOf d.rva.toNat = .ok start)
    (hfit : start + d.size.toNat ≤ file.data.size) :
    file.debugEntries = .ok (entriesAt file.data start d.size.toNat) := by
  have hslice : file.data.slice start d.size.toNat =
      .ok (file.data.extract start (start + d.size.toNat)) := if_pos hfit
  have hsize : (file.data.extract start (start + d.size.toNat)).size = d.size.toNat := by
    rw [Array.size_extract]
    omega
  simp only [debugEntries, hd, hstart, hslice, Result.ok_bind, hsize, entriesAt]

lemma exists_start_of_debugEntries (hd : file.directory? debugDirectory = some d)
    (h : file.debugEntries = .ok entries) : ∃ start, file.offsetOf d.rva.toNat = .ok start ∧
      entries = entriesAt file.data start d.size.toNat := by
  have hentries := h
  simp only [debugEntries, hd, Result.bind_eq_ok] at h
  obtain ⟨start, hstart, bytes, hslice, -⟩ := h
  refine ⟨start, hstart, ?_⟩
  unfold Bytes.slice at hslice
  split at hslice
  · rw [debugEntries_of_directory hd hstart ‹_›] at hentries
    exact (Except.ok.inj hentries).symm
  · cases hslice

/-- Entries of the same kinds, with the same records where these tell of a PDB, tell of the same
one. -/
lemma codeViewGuidOf_congr (h : List.Forall₂ (fun e e' : DebugEntry => e'.kind = e.kind ∧
      (e.kind = DebugEntry.codeView → e'.payload file' = e.payload file)) entries entries') :
    file'.codeViewGuidOf entries' = file.codeViewGuidOf entries := by
  induction h with
  | nil => rfl
  | cons he _ ih =>
    obtain ⟨hkind, hpayload⟩ := he
    rw [codeViewGuidOf, codeViewGuidOf, hkind]
    split
    · rw [hpayload ‹_›, ih]
    · exact ih

end PeFile

namespace Image

/-- The debug directory and the records that tell of a PDB lie in data that is kept, and nothing is
written into them but the file pointers that move; no hash is written into the CLI header. -/
structure DebugApart (image : Image) (layout : LayoutPlan) : Prop where
  header : ∀ start, image.CliRun start 72 → ∀ x, Within start 72 x → ¬ Covered image.HashAt x
  directory : ∀ d start, image.file.directory? PeFile.debugDirectory = some d →
    image.file.offsetOf d.rva.toNat = .ok start →
      image.file.headersSize ≤ start ∧ start + d.size.toNat ≤ layout.kept ∧
        ∀ x, Within start d.size.toNat x → ¬ Covered image.WrittenRun x
  record : ∀ entries, image.file.debugEntries = .ok entries → ∀ e ∈ entries,
    e.kind = DebugEntry.codeView → image.file.headersSize ≤ e.dataPointer.toNat ∧
      e.dataPointer.toNat + e.dataSize.toNat ≤ layout.kept ∧
        ∀ x, Within e.dataPointer.toNat e.dataSize.toNat x →
          ¬ Covered image.WrittenRun x ∧ ¬ image.IsDebugPointer layout x

/-- The debug directory lies in data that is kept, and nothing is written into it but the file
pointers that move. -/
def DirectoryApart (image : Image) (layout : LayoutPlan) : Prop :=
  ∀ d start, image.file.directory? PeFile.debugDirectory = some d →
    image.file.offsetOf d.rva.toNat = .ok start →
      image.file.headersSize ≤ start ∧ start + d.size.toNat ≤ layout.kept ∧
        ∀ x, Within start d.size.toNat x → ¬ Covered image.WrittenRun x

end Image

namespace Output

open LayoutPlan

variable {image : Image} {key : Option KeyPair} {s : Stages} {data : Bytes}

/-- What a debug entry of an output has of the one in its input. -/
structure Moved (layout : LayoutPlan) (e e' : DebugEntry) : Prop where
  kind : e'.kind = e.kind
  size : e'.dataSize = e.dataSize
  pointer : e'.dataPointer = UInt32.ofNat (layout.moved e.dataPointer.toNat)

/-- The file pointer of a debug entry is moved once. -/
lemma Stages.Follow.debugPointer (h : s.Follow image key)
    (hread : PeFile.read data = .ok image.file) (hfit : HeadersFit image.file)
    (hsections : image.file.SectionsFit) (hcontained : image.Contained s.layout)
    {entries : List DebugEntry} (hentries : image.file.debugEntries = .ok entries) {e : DebugEntry}
    (he : e ∈ entries) (hle : image.file.headersSize ≤ e.pointerOffset)
    (hend : e.pointerOffset + 4 ≤ s.layout.kept)
    (hfree : ∀ x, Within e.pointerOffset 4 x → ¬ Covered image.WrittenRun x) :
    s.image.natAt (s.layout.shift e.pointerOffset) 4 =
      s.layout.moved (image.file.data.natAt e.pointerOffset 4) % 2 ^ 32 := by
  have hplan := planned_of_ofFile h.layout (fileAlignment_pos hread)
  have hold := hplan.oldHeaders
  obtain ⟨tabled, headed, htables, hheaders, hpointers⟩ := build_eq_ok.mp h.built
  have hheaded := laid_of_headed hplan hfit (fileAlignment_pos hread) htables hheaders
  obtain ⟨-, hwritten⟩ := h.laid_built hread hfit hsections hcontained
  have hshift {i : Nat} : s.layout.shift e.pointerOffset + i = s.layout.shift (e.pointerOffset + i) := by
    rw [shift_of_le (by omega), shift_of_le (by omega), Nat.add_right_comm]
  have hbuilt : s.image.natAt (s.layout.shift e.pointerOffset) 4 =
      s.built.natAt (s.layout.shift e.pointerOffset) 4 := natAt_congr fun i hi => by
    rw [hshift, h.getElem?_hashed hread hfit (by omega) (by omega), hwritten.2 _ fun hrun =>
      hfree _ ⟨Nat.le_add_right .., by omega⟩ (hrun.shifted (e.pointerOffset + i) (by omega) rfl)]
  have hbefore : headed.natAt (s.layout.shift e.pointerOffset) 4 =
      image.file.data.natAt e.pointerOffset 4 := natAt_congr fun i hi => by
    rw [hshift, hheaded.kept _ (by omega) (by omega) not_false]
  rw [hbuilt, (updateDebugDirectory_spec hpointers).2 entries hentries e he, hbefore]

/-- An entry tells the same in an output, but for its pointer. -/
lemma Stages.Follow.debugEntry (h : s.Follow image key)
    (haddress : Addressable image.file s.layout s.added) (hcontained : image.Contained s.layout)
    {start size i : Nat}
    (hentries : image.file.debugEntries = .ok (PeFile.entriesAt image.file.data start size))
    (hle : image.file.headersSize ≤ start) (hend : start + size ≤ s.layout.kept)
    (hfree : ∀ x, Within start size x → ¬ Covered image.WrittenRun x)
    (hi : i < size / DebugEntry.size) {e e' : DebugEntry}
    (he : e = DebugEntry.readAt image.file.data (start + DebugEntry.size * i))
    (he' : e' = DebugEntry.readAt s.image (s.layout.shift start + DebugEntry.size * i)) :
    Moved s.layout e e' := by
  have hfit := haddress.headers
  have hmem : e ∈ PeFile.entriesAt image.file.data start size :=
    List.mem_map.mpr ⟨i, List.mem_range.mpr hi, he.symm⟩
  obtain ⟨_, -, -, hplaced⟩ := h.placed haddress hcontained
  rw [DebugEntry.size, Nat.lt_div_iff_mul_lt (by decide)] at hi
  rw [DebugEntry.size] at he he'
  have hplace {k : Nat} :
      s.layout.shift start + 28 * i + k = s.layout.shift (start + 28 * i + k) := by
    rw [haddress.shift_of_data hle, haddress.shift_of_data (by omega)]
    omega
  -- a pointer stands behind all else that an entry tells
  have hfield {k w : Nat} (hk : k + w ≤ 24) : s.image.natAt (s.layout.shift start + 28 * i + k) w =
      image.file.data.natAt (start + 28 * i + k) w := natAt_congr fun j hj => by
    rw [Nat.add_assoc _ k j, hplace, hplaced.laid.kept _ (by omega) (by omega), Nat.add_assoc _ k j]
    rintro (⟨-, entries, hentries', e, he, hx⟩ | hrun)
    · rw [hentries] at hentries'
      cases hentries'
      obtain ⟨i', -, rfl⟩ := List.mem_map.mp he
      obtain ⟨hx, hx'⟩ := within_of_shift hx
      simp only [DebugEntry.readAt, DebugEntry.pointerOffset, DebugEntry.size] at hx hx'
      omega
    · exact hfree _ ⟨by omega, by omega⟩ (hrun.shifted _ (by omega) rfl)
  have hoffset : e.pointerOffset = start + 28 * i + 24 := by rw [he]; rfl
  have hpointer := h.debugPointer haddress.read hfit haddress.sections hcontained hentries hmem
    (by omega) (by omega) fun x hx => hfree x ⟨by have := hx.1; omega, by have := hx.2; omega⟩
  rw [hoffset, ← hplace] at hpointer
  rw [he, he']
  refine ⟨?_, ?_, ?_⟩ <;> simp only [DebugEntry.readAt]
  · rw [hfield (by decide)]
  · rw [hfield (by decide)]
  · rw [hpointer, ofNat_mod_eq, UInt32.toNat_ofNat_of_lt' (natAt_lt ..)]

/-- Where an entry points into data that is kept its pointer moves with it. -/
lemma Moved.pointer_toNat {layout : LayoutPlan} {added : MetaSection} {e e' : DebugEntry}
    (h : Moved layout e e') (haddress : Addressable image.file layout added)
    (hle : image.file.headersSize ≤ e.dataPointer.toNat) (hend : e.dataPointer.toNat ≤ layout.kept) :
    e'.dataPointer.toNat = e.dataPointer.toNat + layout.growth := by
  have hfit := haddress.headers
  have hkept := haddress.kept_le
  have hlarge := haddress.size
  have hnonzero : e.dataPointer.toNat ≠ 0 := by
    have := hfit.table_le
    have := hfit.table
    omega
  have hpointer := h.pointer
  rw [moved, if_neg hnonzero, haddress.shift_of_data hle] at hpointer
  rw [hpointer]
  exact UInt32.toNat_ofNat_of_lt' (by rw [UInt32.size]; omega)

/-- A record that is not written over moves together with the pointer to it. -/
lemma Stages.Follow.payload (h : s.Follow image key)
    (haddress : Addressable image.file s.layout s.added) (hcontained : image.Contained s.layout)
    {e e' : DebugEntry} (hrecord : image.file.headersSize ≤ e.dataPointer.toNat ∧
      e.dataPointer.toNat + e.dataSize.toNat ≤ s.layout.kept ∧
        ∀ x, Within e.dataPointer.toNat e.dataSize.toNat x →
          ¬ Covered image.WrittenRun x ∧ ¬ image.IsDebugPointer s.layout x)
    (hsame : Moved s.layout e e') :
    e'.payload (s.layout.newFile image.file s.added s.image) = e.payload image.file := by
  obtain ⟨hle, hend, hfree⟩ := hrecord
  obtain ⟨_, -, -, hplaced⟩ := h.placed haddress hcontained
  have hsize := h.size haddress.read
  have hkept := haddress.kept_le
  have hbefore : s.layout.kept ≤ image.file.data.size := haddress.planned.kept_le
  have hmoved := hsame.pointer_toNat haddress hle (by omega)
  rw [DebugEntry.payload, DebugEntry.payload, hmoved, hsame.size]
  change Bytes.slice s.image _ _ = Bytes.slice image.file.data _ _
  rw [Bytes.slice, Bytes.slice, if_pos (by omega), if_pos (by omega)]
  congr 1
  refine extract_congr fun k hk => ?_
  rw [Nat.add_right_comm, ← haddress.shift_of_data (by omega)]
  have hfree := hfree (e.dataPointer.toNat + k) ⟨Nat.le_add_right .., by omega⟩
  refine hplaced.laid.kept _ (by omega) (by omega) ?_
  rintro (⟨hgrows, entries, hentries, e', he', hx⟩ | hrun)
  · exact hfree.2 ⟨hgrows, entries, hentries, e', he', within_of_shift hx⟩
  · exact hfree.1 (hrun.shifted _ (by omega) rfl)

/-- The debug directory of an output tells the same as that of its input, but for the pointers. -/
lemma Stages.Follow.debugEntries (h : s.Follow image key)
    (haddress : Addressable image.file s.layout s.added) (hcontained : image.Contained s.layout)
    (hdirectory : image.DirectoryApart s.layout) {entries : List DebugEntry}
    (hentries : image.file.debugEntries = .ok entries) : ∃ entries',
    (s.layout.newFile image.file s.added s.image).debugEntries = .ok entries' ∧
      List.Forall₂ (fun e e' => e ∈ entries ∧ Moved s.layout e e') entries entries' := by
  have hkept := haddress.kept_le
  have hfile : PeFile.directory? (s.layout.newFile image.file s.added s.image)
      PeFile.debugDirectory = image.file.directory? PeFile.debugDirectory :=
    newFile_directory? (by decide)
  cases hd : image.file.directory? PeFile.debugDirectory with
  | none =>
    rw [hd] at hfile
    have hnone {file : PeFile} (hd : file.directory? PeFile.debugDirectory = none) :
        file.debugEntries = .ok [] := by rw [PeFile.debugEntries, hd]
    rw [hnone hd] at hentries
    cases hentries
    exact ⟨[], hnone hfile, .nil⟩
  | some d =>
    rw [hd] at hfile
    obtain ⟨start, hstart, rfl⟩ := PeFile.exists_start_of_debugEntries hd hentries
    obtain ⟨hle, hend, hfree⟩ := hdirectory d start hd hstart
    have hleads : ∃ sec, image.file.Leads sec d.rva.toNat start := by
      rcases PeFile.offsetOf_eq_ok hstart with hleads | ⟨-, hlt, rfl⟩
      · exact hleads
      · omega
    obtain ⟨sec, hleads⟩ := hleads
    have hleads' : (s.layout.newFile image.file s.added s.image).Leads _ _ _ :=
      haddress.leads_moved hleads
    have hsize : s.image.size = s.layout.sectionStart + rawSize image.file s.added :=
      h.size haddress.read
    have hroom : s.layout.shift start + d.size.toNat ≤ s.image.size := by
      rw [haddress.shift_of_data hle]
      omega
    refine ⟨_, PeFile.debugEntries_of_directory hfile hleads'.2 hroom,
      List.forall₂_map_left_iff.mpr (List.forall₂_map_right_iff.mpr
        (List.forall₂_same.mpr fun i hi => ⟨List.mem_map_of_mem hi, ?_⟩))⟩
    exact h.debugEntry haddress hcontained hentries hle hend hfree (List.mem_range.mp hi) rfl rfl

/-- An output names the PDB that its input names. -/
theorem Stages.Follow.codeViewGuid (h : s.Follow image key)
    (haddress : Addressable image.file s.layout s.added) (hcontained : image.Contained s.layout)
    (hdebug : image.DebugApart s.layout) {guid : Option Bytes}
    (hguid : image.file.codeViewGuid = .ok guid) :
    (s.layout.newFile image.file s.added s.image).codeViewGuid = .ok guid := by
  obtain ⟨entries, hentries, hguid⟩ := Result.bind_eq_ok.mp hguid
  obtain ⟨entries', hentries', hmoved⟩ :=
    h.debugEntries haddress hcontained hdebug.directory hentries
  rw [PeFile.codeViewGuid, hentries', Result.ok_bind, ← hguid]
  refine PeFile.codeViewGuidOf_congr (hmoved.imp fun e e' ⟨he, hmoved⟩ => ⟨hmoved.kind, fun hview => ?_⟩)
  exact h.payload haddress hcontained (hdebug.record _ hentries _ he hview) hmoved

end Output

end CliImage
