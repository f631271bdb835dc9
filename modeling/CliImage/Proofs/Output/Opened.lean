import CliImage.Proofs.Layout.Pages
import CliImage.Proofs.Output.Accepted

/-! An output of an image whose sections lie on pages of their own is accepted as a PE file again,
also where its headers have grown. -/

namespace CliImage

open Bytes

namespace CliHeader

variable {data : Bytes} {header : CliHeader} {span : Span} {pos next : Nat}

lemma rva_of_readSpan (h : readSpan data pos = .ok span next) :
    span.rva = UInt32.ofNat (data.natAt pos 4) := by
  simp only [readSpan, Reader.bind_eq_ok, Reader.u32_eq_ok] at h
  obtain ⟨_, _, ⟨-, rfl, -⟩, _, _, -, h⟩ := h
  obtain ⟨rfl, -⟩ := Reader.pure_eq_ok.mp h
  rfl

lemma metadata_of_read (h : read data = .ok header) :
    header.metadata.rva.toNat = data.natAt 8 4 := by
  obtain ⟨next, h⟩ := Reader.run_eq_ok.mp h
  simp only [reader, Reader.bind_eq_ok, Reader.unless_fail_eq_ok] at h
  obtain ⟨_, _, hdata, -, _, _, hsize, -, _, _, hmajor, _, _, hminor, metadata, _, hmetadata, -, _, _,
    -, _, _, -, _, _, -, _, _, -, _, _, -, _, _, -, _, _, -, _, _, -, h⟩ := h
  obtain ⟨rfl, -⟩ := Reader.pure_eq_ok.mp h
  rw [Reader.data_apply] at hdata
  cases hdata
  obtain ⟨-, -, rfl⟩ := Reader.u32_eq_ok.mp hsize
  obtain ⟨-, -, rfl⟩ := Reader.u16_eq_ok.mp hmajor
  obtain ⟨-, -, rfl⟩ := Reader.u16_eq_ok.mp hminor
  rw [rva_of_readSpan hmetadata]
  exact UInt32.toNat_ofNat_of_lt' (Bytes.natAt_lt ..)

end CliHeader

lemma Root.versionBytes_of_read {data : Bytes} {root : Root} (h : read data = .ok root) :
    root.versionBytes = data.extract 16 (16 + data.natAt 12 4) ∧
      16 + data.natAt 12 4 + 4 ≤ data.size := by
  obtain ⟨-, h⟩ := Result.unless_throw_eq_ok.mp h
  obtain ⟨-, h⟩ := Result.unless_throw_eq_ok.mp h
  obtain ⟨hroom, h⟩ := Result.unless_throw_eq_ok.mp h
  obtain ⟨-, h⟩ := Result.unless_throw_eq_ok.mp h
  obtain ⟨_, -, h⟩ := Result.bind_eq_ok.mp h
  cases h
  exact ⟨by rw [Nat.add_comm 16], by omega⟩

namespace PeFile

variable {file : PeFile} {rva len : Nat} {bytes : Bytes}

lemma directory?_of_both {i : Nat} {d : Span} (h : file.directory? i = some d) :
    PeHeaders.directory? file.optional i = some d := by
  obtain ⟨hget, hboth⟩ := Option.filter_eq_some_iff.mp h
  refine Option.filter_eq_some_iff.mpr ⟨hget, ?_⟩
  simp only [decide_eq_true_eq] at hboth ⊢
  exact .inl hboth.1

lemma directory?_cli (h : (file.directory? cliDirectory).isSome) :
    PeHeaders.directory? file.optional cliDirectory = some file.cli := by
  obtain ⟨d, hd⟩ := Option.isSome_iff_exists.mp h
  rw [cli, hd, Option.getD_some]
  exact directory?_of_both hd

/-- The container finds the CLI header of a file, and with it the version in the metadata. -/
lemma exists_find_cli {data : Bytes} (h : read data = .ok file) : ∃ start found,
    file.headers.find file.optional file.cli.rva.toNat = some start ∧
      file.headers.find file.optional (data.natAt (start + 8) 4) = some found ∧
      (Utf8.decode? (data.extract (found + 16)
        (found + 16 + data.natAt (found + 12) 4))).isSome := by
  obtain ⟨-, -, hok, hoptional, -, -, hsome⟩ := read_eq_ok.mp h
  have hdirectory : PeHeaders.directory? file.optional 14 = some file.cli := directory?_cli hsome
  simp only [PeHeaders.directoriesOk, hoptional, hdirectory, Option.all_some, Bool.and_eq_true] at hok
  exact PeHeaders.exists_of_cliDirectoryOk hok.2

lemma exists_standsAt_of_slice (h : file.slice rva len = .ok bytes) :
    ∃ start, file.offsetOf rva = .ok start ∧ file.data.StandsAt start bytes ∧ bytes.size = len := by
  obtain ⟨start, hstart, h⟩ := Result.bind_eq_ok.mp h
  unfold Bytes.slice at h
  split at h
  · cases h
    exact ⟨start, hstart, standsAt_extract (Nat.le_add_right ..) ‹_›, by simp; omega⟩
  · cases h

end PeFile

namespace Image

/-- A record that tells how a file has been made: as many bytes as it says. -/
def RecordKept (image : Image) (layout : LayoutPlan) (e : DebugEntry) : Prop :=
  image.file.headersSize ≤ e.dataPointer.toNat ∧
    e.dataPointer.toNat + 4 + image.file.data.natAt e.dataPointer.toNat 4 ≤ layout.kept ∧
      ∀ x, Within e.dataPointer.toNat 4 x →
        ¬ Covered image.WrittenRun x ∧ ¬ image.IsDebugPointer layout x

/-- What the container looks at lies in the data of sections that share no pages, and is kept there.
-/
structure Apparent (image : Image) (layout : LayoutPlan) : Prop
    extends LayoutPlan.Paged image.file layout where
  certificate : PeHeaders.directory? image.file.optional PeFile.certificateDirectory =
    image.file.directory? PeFile.certificateDirectory
  cli : ∃ s start, image.file.Leads s image.file.cli.rva.toNat start
  metadata : ∃ s start, image.file.Leads s image.cli.metadata.rva.toNat start
  header : ∀ start, image.CliRun start 72 → ∀ x, Within start 72 x → ¬ Covered image.HashAt x
  directory : ∀ d, PeHeaders.directory? image.file.optional PeFile.debugDirectory = some d →
    d.rva ≠ 0 ∧ ∃ start, image.file.offsetOf d.rva.toNat = .ok start ∧
      image.file.headersSize ≤ start ∧ start + d.size.toNat ≤ layout.kept ∧
        ∀ x, Within start d.size.toNat x → ¬ Covered image.WrittenRun x
  record : ∀ entries, image.file.debugEntries = .ok entries → ∀ e ∈ entries, e.dataSize ≠ 0 →
    (e.kind = DebugEntry.codeView → e.dataPointer.toNat + e.dataSize.toNat ≤ layout.kept) ∧
      (e.kind = 16 → image.RecordKept layout e)

end Image

namespace Output

open LayoutPlan

variable {image : Image} {key : Option KeyPair} {s : Stages} {data : Bytes}

/-- The version in the metadata is a text: the container has looked at it. -/
lemma isSome_version (hparsed : image.Parsed data) (happarent : image.Apparent s.layout) :
    (Utf8.decode? image.metadata.root.versionBytes).isSome := by
  obtain rfl := (PeFile.read_eq_ok.mp hparsed.file).1
  obtain ⟨_, _, hcli⟩ := happarent.cli
  obtain ⟨_, _, hmetadata⟩ := happarent.metadata
  obtain ⟨start, found, hstart, hfound, hversion⟩ := PeFile.exists_find_cli hparsed.file
  obtain ⟨bytes, hbytes, hread⟩ := hparsed.opens.cli
  obtain ⟨start', hstart', hstands, hsize⟩ := PeFile.exists_standsAt_of_slice hbytes
  obtain ⟨bytes', hbytes', hread'⟩ := hparsed.opens.metadata
  obtain ⟨found', hfound', hstands', -⟩ := PeFile.exists_standsAt_of_slice hbytes'
  obtain ⟨_, hroot, -⟩ := Metadata.read_eq_ok hread'
  obtain ⟨htext, hroom⟩ := Root.versionBytes_of_read hroot
  have hpointer : image.file.data.natAt (start' + 8) 4 = image.cli.metadata.rva.toNat := by
    rw [CliHeader.metadata_of_read hread, hstands.natAt (by rw [hsize]; decide)]
  -- the container has found both where their addresses lead
  obtain rfl := (show image.file.Leads _ _ start' from ⟨hcli.1, hstart'⟩).find_eq
    happarent.apart hstart
  rw [hpointer] at hfound
  obtain rfl := (show image.file.Leads _ _ found' from ⟨hmetadata.1, hfound'⟩).find_eq
    happarent.apart hfound
  rw [hstands'.natAt (by omega)] at hversion
  have hsame : image.file.data.extract (found + 16) (found + 16 + bytes'.natAt 12 4) =
      bytes'.extract 16 (16 + bytes'.natAt 12 4) := extract_congr fun i hi => by
    rw [Nat.add_assoc]
    exact hstands'.getElem? (by omega)
  rwa [htext, ← hsame]

lemma directory?_certificate (h : PeHeaders.directory? image.file.optional
      PeFile.certificateDirectory = image.file.directory? PeFile.certificateDirectory) :
    PeHeaders.directory? (s.layout.newOptional image.file) PeFile.certificateDirectory = none := by
  cases hd : image.file.directory? PeFile.certificateDirectory with
  | none => exact newDirectory_certificate (h.trans hd)
  | some d =>
    rw [PeHeaders.directory?, newOptional, newDirectories, hd, Option.isSome_some, if_pos rfl,
      List.getElem?_set_self']
    cases image.file.optional.directories[PeFile.certificateDirectory]? <;> rfl

lemma Moved.pointer_le {e e' : DebugEntry} (h : Moved s.layout e e') :
    e'.dataPointer.toNat ≤ e.dataPointer.toNat + s.layout.growth := by
  have hmod : e'.dataPointer.toNat ≤ s.layout.moved e.dataPointer.toNat := by
    rw [h.pointer, UInt32.toNat_ofNat']
    exact Nat.mod_le ..
  refine hmod.trans ?_
  rw [moved, shift]
  split_ifs <;> omega

lemma Moved.codeViewOk {e e' : DebugEntry} (h : Moved s.layout e e') {out : Bytes}
    (hend : e.dataPointer.toNat + e.dataSize.toNat + s.layout.growth ≤ out.size)
    (hok : PeHeaders.codeViewOk data e.dataSize.toNat e.dataPointer.toNat = true) :
    PeHeaders.codeViewOk out e'.dataSize.toNat e'.dataPointer.toNat = true := by
  simp only [PeHeaders.codeViewOk, Bool.and_eq_true, decide_eq_true_eq] at hok
  have hpointer := h.pointer_le
  rw [h.size]
  exact PeHeaders.codeViewOk_of_le hok.1.1 (by omega)

lemma Stages.Follow.reproducibleOk (h : s.Follow image key)
    (haddress : Addressable image.file s.layout s.added) (hcontained : image.Contained s.layout)
    {e e' : DebugEntry} (hmoved : Moved s.layout e e')
    (hrecord : e.dataSize ≠ 0 → image.RecordKept s.layout e) :
    PeHeaders.reproducibleOk s.image e'.dataSize.toNat e'.dataPointer.toNat = true := by
  by_cases hzero : e.dataSize = 0
  · rw [hmoved.size, hzero]
    rfl
  obtain ⟨hle, hend, hfree⟩ := hrecord hzero
  obtain ⟨_, -, -, hplaced⟩ := h.placed haddress hcontained
  have hsize := h.size haddress.read
  have hkept := haddress.kept_le
  have hpointer := hmoved.pointer_toNat haddress hle (by omega)
  have hlength : s.image.natAt (e.dataPointer.toNat + s.layout.growth) 4 =
      image.file.data.natAt e.dataPointer.toNat 4 := natAt_congr fun k hk => by
    obtain ⟨hwritten, hdebug⟩ := hfree (e.dataPointer.toNat + k) ⟨Nat.le_add_right .., by omega⟩
    rw [Nat.add_right_comm, ← haddress.shift_of_data (by omega)]
    refine hplaced.laid.kept _ (by omega) (by omega) ?_
    rintro (⟨hgrows, entries, hentries, e', he', hx⟩ | hrun)
    · exact hdebug ⟨hgrows, entries, hentries, e', he', within_of_shift hx⟩
    · exact hwritten (hrun.shifted _ (by omega) rfl)
  rw [PeHeaders.reproducibleOk, hpointer, hlength]
  simp only [Bool.or_eq_true, Bool.and_eq_true, decide_eq_true_eq]
  exact .inr ⟨by omega, by omega⟩

/-- Debug entries that are accepted are accepted where they have been moved to. -/
lemma Stages.Follow.debugEntriesOk (h : s.Follow image key)
    (haddress : Addressable image.file s.layout s.added) (hcontained : image.Contained s.layout)
    (happarent : image.Apparent s.layout) {d : Span} {start : Nat}
    (hd : image.file.directory? PeFile.debugDirectory = some d)
    (hstart : image.file.offsetOf d.rva.toNat = .ok start)
    (hle : image.file.headersSize ≤ start) (hend : start + d.size.toNat ≤ s.layout.kept)
    (hfree : ∀ x, Within start d.size.toNat x → ¬ Covered image.WrittenRun x)
    (hok : PeHeaders.debugEntriesOk image.file.data start (d.size.toNat / 28) = true) :
    PeHeaders.debugEntriesOk s.image (s.layout.shift start) (d.size.toNat / 28) = true := by
  have hsize := h.size haddress.read
  have hkept := haddress.kept_le
  have hread := PeFile.debugEntries_of_directory hd hstart (hend.trans haddress.planned.kept_le)
  have hmoved {i : Nat} (hi : i < d.size.toNat / 28) : Moved s.layout
      (DebugEntry.readAt image.file.data (start + 28 * i))
      (DebugEntry.readAt s.image (s.layout.shift start + 28 * i)) :=
    h.debugEntry haddress hcontained hread hle hend hfree hi rfl rfl
  have hrecord {i : Nat} (hi : i < d.size.toNat / 28) := happarent.record _ hread
    (DebugEntry.readAt image.file.data (start + 28 * i))
    (List.mem_map_of_mem (List.mem_range.mpr hi))
  refine PeHeaders.debugEntriesOk_congr (fun i hi => (hmoved hi).kind) (fun i hi hkind hview => ?_)
    (fun i hi hkind => ?_) hok
  · have hwhole := (hrecord hi (PeHeaders.ne_zero_of_codeViewOk hview)).1 hkind
    exact (hmoved hi).codeViewOk (by omega) hview
  · exact h.reproducibleOk haddress hcontained (hmoved hi) fun hne => (hrecord hi hne).2 hkind

lemma Stages.Follow.debugDirectoryOk (h : s.Follow image key)
    (haddress : Addressable image.file s.layout s.added) (hcontained : image.Contained s.layout)
    (happarent : image.Apparent s.layout) {d : Span}
    (hd : PeHeaders.directory? image.file.optional PeFile.debugDirectory = some d) :
    (s.layout.newHeaders image.file s.added).debugDirectoryOk (s.layout.newOptional image.file)
      s.image d = true := by
  obtain ⟨-, -, hok, hoptional, -⟩ := PeFile.read_eq_ok.mp haddress.read
  have hkept := haddress.kept_le
  have hsize := h.size haddress.read
  obtain ⟨hrva, start, hstart, hle, hend, hfree⟩ := happarent.directory d hd
  obtain ⟨sec, hleads⟩ := (PeFile.offsetOf_eq_ok hstart).resolve_right
    fun ⟨_, hlt, heq⟩ => by omega
  rw [PeHeaders.directoriesOk, hoptional] at hok
  simp only [Bool.and_eq_true] at hok
  have hdirectory := hok.1.2
  rw [show (6 : Nat) = PeFile.debugDirectory from rfl, hd, Option.all_some] at hdirectory
  obtain ⟨found, hfind, hentries⟩ := PeHeaders.exists_of_debugDirectoryOk hdirectory
  -- the container has looked at the entries where the address leads
  obtain rfl := hleads.find_eq happarent.apart hfind
  have hshift := haddress.shift_of_data hle
  rw [PeHeaders.debugDirectoryOk, haddress.find_moved happarent.toPaged hleads hfind,
    Bool.and_eq_true, decide_eq_true_eq]
  refine ⟨by omega, ?_⟩
  by_cases hzero : d.size = 0
  · rw [hzero]
    rfl
  exact h.debugEntriesOk haddress hcontained happarent
    (Option.filter_eq_some_iff.mpr ⟨(Option.filter_eq_some_iff.mp hd).1, by simp [hrva, hzero]⟩)
    hstart hle hend hfree hentries

/-- An output of an image whose sections take pages of their own is accepted, and its headers read
as they have been laid out. -/
theorem Stages.Follow.read_apparent (h : s.Follow image key) (hparsed : image.Parsed data)
    (haddress : Addressable image.file s.layout s.added) (hcontained : image.Contained s.layout)
    (happarent : image.Apparent s.layout) {metadata : Metadata}
    (hread : Metadata.read s.encoded.1 = .ok metadata)
    (hroot : metadata.root.versionBytes = image.metadata.root.versionBytes) :
    PeFile.read s.image = .ok (s.layout.newFile image.file s.added s.image) := by
  have hraw := haddress.le_rawSize
  have hlarge := haddress.size
  obtain ⟨hle, -, hsize, -⟩ := h.standsAt_metadata (by omega)
  obtain ⟨sealed, halike, hsealed, hplaced⟩ := h.placed haddress hcontained
  have hpos := Metadata.size_of_encode h.encoded
  have hend := hsealed.le_size
  obtain ⟨sec, start, hleads⟩ := happarent.cli
  have hrun : image.CliRun start 72 := ⟨rfl, hleads.2⟩
  obtain ⟨hbehind, hkept⟩ := hcontained.written start 72 (.cli hrun)
  obtain ⟨found, -, hfind, -⟩ := PeFile.exists_find_cli hparsed.file
  have hpower := (PeHeaders.find_eq_some.mp hfind).1
  have hfile : s.layout.newFile image.file sealed s.image =
      s.layout.newFile image.file s.added s.image := halike.newFile
  have hheaders : s.layout.newHeaders image.file s.added = s.layout.newHeaders image.file sealed :=
    congrArg PeFile.headers hfile.symm
  rw [← hfile]
  refine read_of_directories hplaced.toAddressable hplaced.laid
    (directory?_certificate happarent.certificate)
    (fun d hd => hheaders ▸ h.debugDirectoryOk haddress hcontained happarent hd)
    (hplaced.find_moved happarent.toPaged hleads hfind)
    (h.standsAt_cli haddress hleads.2 hbehind hkept fun x =>
      not_hashMoved haddress hcontained.hash hbehind hkept (happarent.header start hrun))
    (hplaced.find_pushed happarent.toPaged hpower hle (by omega)) (hplaced.laid.added.trans hsealed)
    hsize hread ?_
  rw [hroot]
  exact isSome_version hparsed happarent

end Output

end CliImage
