import CliImage.Proofs.Layout.Accepted
import CliImage.Proofs.Output.Debug
import CliImage.Proofs.Output.Metadata

/-! An output whose headers have not grown is accepted as a PE file again. -/

namespace CliImage

open Bytes

namespace Image

/-- The container looks for the directories where they are read, and finds them whole in data that
is kept; entries that tell of other things than a PDB or a hash of it do not matter to it. -/
structure Found (image : Image) (layout : LayoutPlan) : Prop where
  still : layout.grows = false
  power : PeHeaders.isPowerOfTwo image.file.fileAlignment = true
  certificate :
    PeHeaders.directory? image.file.optional PeFile.certificateDirectory = none
  cli : ∃ start, image.CliRun start 72 ∧
    image.file.headers.find image.file.optional image.file.cli.rva.toNat = some start
  header : ∀ start, image.CliRun start 72 → ∀ x, Within start 72 x → ¬ Covered image.HashAt x
  reach : ∀ s ∈ image.file.sections,
    s.start + PeHeaders.reach s image.file.fileAlignment ≤ layout.sectionRva.toNat
  debug : ∀ d, PeHeaders.directory? image.file.optional PeFile.debugDirectory = some d →
    ∃ start, image.file.headers.find image.file.optional d.rva.toNat = some start ∧
      image.file.headersSize ≤ start ∧ start + d.size.toNat ≤ layout.kept ∧
      (∀ x, Within start d.size.toNat x → ¬ Covered image.WrittenRun x) ∧
      ∀ e ∈ PeFile.entriesAt image.file.data start d.size.toNat, e.kind ≠ 16 ∧
        (e.kind = DebugEntry.codeView → 24 ≤ e.dataSize.toNat ∧
          e.dataPointer.toNat + e.dataSize.toNat ≤ layout.kept)
  version : (Utf8.decode? image.metadata.root.versionBytes).isSome

end Image

namespace Output

open LayoutPlan

variable {image : Image} {key : Option KeyPair} {s : Stages} {layout : LayoutPlan}
  {added : MetaSection} {data out : Bytes}

lemma debugDirectoryOk_of_laid (hfound : image.Found layout)
    (haddress : Addressable image.file layout added)
    (hlaid : Laid image.file layout added (Touched image layout) out) {d : Span}
    (hd : PeHeaders.directory? image.file.optional PeFile.debugDirectory = some d) :
    (layout.newHeaders image.file added).debugDirectoryOk (layout.newOptional image.file) out d =
      true := by
  obtain ⟨start, hfind, hle, hend, hfree, hentries⟩ := hfound.debug d hd
  have hkept := haddress.kept_le
  have hsize := hlaid.size
  have hgrowth : layout.growth = 0 := by
    have := hfound.still
    rw [grows, decide_eq_false_iff_not] at this
    omega
  have hsame {offset w : Nat} (hle' : start ≤ offset) (hend' : offset + w ≤ start + d.size.toNat) :
      out.natAt offset w = image.file.data.natAt offset w := natAt_congr fun i hi => by
    have hshift : layout.shift (offset + i) = offset + i := by
      rw [haddress.shift_of_data (by omega), hgrowth, Nat.add_zero]
    conv_lhs => rw [← hshift]
    refine hlaid.kept _ (by omega) (by omega) ?_
    rintro (⟨hgrows, -⟩ | hrun)
    · rw [hfound.still] at hgrows
      cases hgrows
    · exact hfree _ ⟨by omega, by omega⟩ (hrun.shifted _ (by omega) rfl)
  have hentry {i : Nat} (hi : i < d.size.toNat / 28) := hentries
    (DebugEntry.readAt image.file.data (start + DebugEntry.size * i))
    (List.mem_map_of_mem (List.mem_range.mpr hi))
  have hlast {i : Nat} (hi : i < d.size.toNat / 28) : 28 * i + 28 ≤ d.size.toNat := by omega
  have hnumber (n : Nat) : (UInt32.ofNat (image.file.data.natAt n 4)).toNat =
      image.file.data.natAt n 4 := UInt32.toNat_ofNat_of_lt' (natAt_lt ..)
  rw [PeHeaders.debugDirectoryOk, find_newHeaders hfound.still hfind, Bool.and_eq_true]
  refine ⟨decide_eq_true (by omega), PeHeaders.debugEntriesOk_of (fun i hi => ?_) fun i hi => ?_⟩
  · have := hlast hi
    rw [hsame (by omega) (by omega)]
    intro hkind
    refine (hentry hi).1 (UInt32.toNat_inj.mp ?_)
    exact (hnumber _).trans hkind
  · have := hlast hi
    rw [hsame (by omega) (by omega), hsame (by omega) (by omega), hsame (by omega) (by omega)]
    intro hkind
    obtain ⟨hlength, hrecord⟩ := (hentry hi).2 (UInt32.toNat_inj.mp ((hnumber _).trans hkind))
    simp only [DebugEntry.readAt, DebugEntry.size, hnumber] at hlength hrecord
    exact PeHeaders.codeViewOk_of_le hlength (by omega)

lemma cli_eq_of_directory? {d : Span}
    (hd : PeHeaders.directory? (layout.newOptional image.file) PeFile.cliDirectory = some d)
    (hsome : (image.file.directory? PeFile.cliDirectory).isSome) : image.file.cli = d := by
  have hget := (Option.filter_eq_some_iff.mp hd).1
  rw [newOptional, newDirectories_getElem? (by decide)] at hget
  obtain ⟨d', hd'⟩ := Option.isSome_iff_exists.mp hsome
  have hget' := (Option.filter_eq_some_iff.mp hd').1
  rw [hget] at hget'
  cases hget'
  rw [PeFile.cli, hd', Option.getD_some]

/-- What has been laid out is accepted where the directories lead to what they are of. -/
lemma read_of_directories {touched : Nat → Prop} {start found : Nat} {cli : CliHeader}
    {bytes : Bytes} {metadata : Metadata} (haddress : Addressable image.file layout added)
    (hlaid : Laid image.file layout added touched out)
    (hcertificate : PeHeaders.directory? (layout.newOptional image.file)
      PeFile.certificateDirectory = none)
    (hdebug : ∀ d, PeHeaders.directory? image.file.optional PeFile.debugDirectory = some d →
      (layout.newHeaders image.file added).debugDirectoryOk (layout.newOptional image.file) out d =
        true)
    (hstart : (layout.newHeaders image.file added).find (layout.newOptional image.file)
      image.file.cli.rva.toNat = some start) (hcli : out.StandsAt start cli.encode)
    (hfound : (layout.newHeaders image.file added).find (layout.newOptional image.file)
      cli.metadata.rva.toNat = some found) (hstands : out.StandsAt found bytes)
    (hsize : cli.metadata.size.toNat = bytes.size) (hread : Metadata.read bytes = .ok metadata)
    (hversion : (Utf8.decode? metadata.root.versionBytes).isSome) :
    PeFile.read out = .ok (layout.newFile image.file added out) := by
  obtain ⟨-, -, -, -, hfile, hsection, hsome⟩ := PeFile.read_eq_ok.mp haddress.read
  have hplaced : Placed image.file layout added touched out := ⟨haddress, hlaid⟩
  obtain ⟨_, hroot, -⟩ := Metadata.read_eq_ok hread
  refine PeFile.read_eq_ok.mpr ⟨rfl, hplaced.read_headers, ?_, rfl, hfile, hsection, ?_⟩
  · have hdirectory : PeHeaders.directory? (layout.newOptional image.file) 6 =
        PeHeaders.directory? image.file.optional 6 :=
      congrArg (Option.filter _) (newDirectories_getElem? (by decide))
    rw [PeHeaders.directoriesOk]
    change ((PeHeaders.directory? (layout.newOptional image.file)
      PeFile.certificateDirectory).all _ && _ && _) = true
    rw [hcertificate, hdirectory]
    simp only [Option.all_none, Bool.true_and, Bool.and_eq_true, Option.all_eq_true]
    refine ⟨hdebug, fun d hd => ?_⟩
    rw [cli_eq_of_directory? hd hsome] at hstart
    exact PeHeaders.cliDirectoryOk_of hstart hcli hfound hstands hsize hroot hversion
  · rw [newFile_directory? (by decide)]
    exact hsome

/-- What has been laid out is accepted where the CLI header leads to metadata in the added section. -/
theorem read_of_laid {cli : CliHeader} {bytes : Bytes} {metadata : Metadata}
    (hfound : image.Found layout) (haddress : Addressable image.file layout added)
    (hlaid : Laid image.file layout added (Touched image layout) out)
    (hcli : ∀ start, image.CliRun start 72 → out.StandsAt (layout.shift start) cli.encode)
    (hle : layout.sectionRva.toNat ≤ cli.metadata.rva.toNat)
    (hstands : added.data.StandsAt (cli.metadata.rva.toNat - layout.sectionRva.toNat) bytes)
    (hsize : cli.metadata.size.toNat = bytes.size) (hread : Metadata.read bytes = .ok metadata)
    (hroot : metadata.root.versionBytes = image.metadata.root.versionBytes) :
    PeFile.read out = .ok (layout.newFile image.file added out) := by
  obtain ⟨_, hroot', -⟩ := Metadata.read_eq_ok hread
  have hpos : 0 < bytes.size := by
    have := (Result.unless_throw_eq_ok.mp hroot').1
    omega
  have hend := hstands.le_size
  obtain ⟨start, hrun, hfind⟩ := hfound.cli
  have hgrowth : layout.growth = 0 := by
    have := hfound.still
    rw [grows, decide_eq_false_iff_not] at this
    omega
  have hshift : layout.shift start = start := by
    rw [shift, hgrowth]
    split <;> rfl
  have hcli := hcli start hrun
  rw [hshift] at hcli
  exact read_of_directories haddress hlaid (newDirectory_certificate hfound.certificate)
    (fun d hd => debugDirectoryOk_of_laid hfound haddress hlaid hd)
    (find_newHeaders hfound.still hfind) hcli
    (haddress.find_added hfound.power hfound.still hfound.reach hle (by omega))
    (hlaid.added.trans hstands) hsize hread (by rw [hroot]; exact hfound.version)

variable {metadata : Metadata} (hfound : image.Found s.layout)
  (haddress : Addressable image.file s.layout s.added) (hcontained : image.Contained s.layout)
  (hread : Metadata.read s.encoded.1 = .ok metadata)
  (hroot : metadata.root.versionBytes = image.metadata.root.versionBytes)

include hfound haddress hcontained hread hroot

lemma Stages.Unsigned.read_hashed (h : s.Unsigned image key) :
    PeFile.read s.hashed = .ok (s.layout.newFile image.file s.added s.hashed) := by
  have hraw := haddress.le_rawSize
  have hlarge := haddress.size
  obtain ⟨hle, hstands, hsize, -⟩ := h.standsAt_metadata (by omega)
  refine read_of_laid hfound haddress
    (h.laid haddress.read haddress.headers haddress.sections hcontained) (fun start hrun => ?_)
    hle hstands hsize hread hroot
  obtain ⟨hbehind, hend⟩ := hcontained.written start 72 (.cli hrun)
  exact h.standsAt_cli hrun.2 fun x =>
    not_hashMoved haddress hcontained.hash hbehind hend (hfound.header start hrun)

/-- An output is accepted, and its headers read as they have been laid out. -/
theorem Stages.Follow.read_image (h : s.Follow image key) :
    PeFile.read s.image = .ok (s.layout.newFile image.file s.added s.image) := by
  have hraw := haddress.le_rawSize
  have hlarge := haddress.size
  obtain ⟨hle, -, hsize, -⟩ := h.standsAt_metadata (by omega)
  obtain ⟨sealed, halike, hsealed, hplaced⟩ := h.placed haddress hcontained
  rw [← halike.newFile]
  refine read_of_laid hfound hplaced.toAddressable hplaced.laid (fun start hrun => ?_)
    hle hsealed hsize hread hroot
  obtain ⟨hbehind, hend⟩ := hcontained.written start 72 (.cli hrun)
  exact h.standsAt_cli haddress hrun.2 hbehind hend fun x =>
    not_hashMoved haddress hcontained.hash hbehind hend (hfound.header start hrun)

end Output

end CliImage
