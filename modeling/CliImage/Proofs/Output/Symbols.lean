import CliImage.Proofs.Image.Evaluation
import CliImage.Proofs.Output.Progress

/-! An output can be opened, and the PDB that is written with it belongs to it. -/

namespace CliImage

open Bytes

namespace Output

open LayoutPlan
open Metadata (Kept DebugRows)

variable {image : Image} {key : Option KeyPair} {out : Output} {s : Stages} {layout : LayoutPlan}
  {data : Bytes} {symbols : Symbols} {metadata : Metadata}

/-- The CLI header leads to the metadata as it has been written. -/
lemma Stages.Follow.slice_metadata (h : s.Follow image key)
    (haddress : Addressable image.file s.layout s.added) (hcontained : image.Contained s.layout) :
    (s.layout.newFile image.file s.added s.image).slice s.cli.metadata.rva.toNat
      s.cli.metadata.size.toNat = .ok s.encoded.1 := by
  obtain ⟨sealed, halike, hsealed, hplaced⟩ := h.placed haddress hcontained
  have hraw := haddress.le_rawSize
  have hlarge := haddress.size
  obtain ⟨hle, hstands, hlength, -⟩ := h.standsAt_metadata (by omega)
  have hend := hstands.le_size
  have hpos := Metadata.size_of_encode h.encoded
  have hout := hplaced.laid.added.trans hsealed
  have hleads : (s.layout.newFile image.file s.added s.image).Leads _ s.cli.metadata.rva.toNat _ :=
    haddress.leads_added (by rwa [haddress.rva]) (by rw [haddress.rva]; omega)
      s.cli.metadata.rva.toNat_lt
  have hfound := hleads.2
  rw [haddress.rva] at hfound
  rw [PeFile.slice, hfound, Result.ok_bind, hlength]
  change Bytes.slice s.image _ _ = _
  rw [Bytes.slice, if_pos hout.le_size, hout.extract]

/-- The CLI header of an output can be read. -/
lemma Stages.Follow.slice_cli (h : s.Follow image key) (hparsed : image.Parsed data)
    (haddress : Addressable image.file s.layout s.added) (hcontained : image.Contained s.layout)
    (hheader : ∀ start, image.CliRun start 72 → ∀ x, Within start 72 x → ¬ Covered image.HashAt x) :
    ∃ bytes, (s.layout.newFile image.file s.added s.image).slice
      (s.layout.newFile image.file s.added s.image).cli.rva.toNat CliHeader.encodedSize = .ok bytes ∧
      CliHeader.read bytes = .ok s.cli := by
  obtain ⟨_, hslice, -⟩ := hparsed.opens.cli
  obtain ⟨start, hstart, -⟩ := Result.bind_eq_ok.mp hslice
  have hrun : image.CliRun start 72 := ⟨rfl, hstart⟩
  obtain ⟨hle, hend⟩ := hcontained.written start 72 (.cli hrun)
  have hstands := h.standsAt_cli haddress hstart hle hend fun x =>
    not_hashMoved haddress hcontained.hash hle hend (hheader start hrun)
  have hleads := (PeFile.offsetOf_eq_ok hstart).resolve_right fun ⟨_, hlt, heq⟩ => by omega
  obtain ⟨sec, hleads⟩ := hleads
  have hextract := hstands.extract
  have hroom := hstands.le_size
  rw [CliHeader.size_encode] at hextract hroom
  refine ⟨s.cli.encode, ?_, ?_⟩
  · rw [newFile_cli, PeFile.slice, (haddress.leads_moved hleads).2, Result.ok_bind]
    change Bytes.slice s.image _ 72 = _
    rw [Bytes.slice, if_pos hroom, hextract]
  · have hback := CliHeader.read_encode (h.cli_formed hparsed haddress) #[]
    rwa [Array.append_empty] at hback

/-- The CLI header of an output leads to its metadata. -/
theorem Stages.Follow.opens (h : s.Follow image key) (hparsed : image.Parsed data)
    (haddress : Addressable image.file s.layout s.added) (hcontained : image.Contained s.layout)
    (hapart : image.DebugApart s.layout) (hread : Metadata.read s.encoded.1 = .ok metadata)
    (hpdb : metadata.isPdb = false) :
    (s.layout.newFile image.file s.added s.image).Opens s.cli metadata :=
  ⟨h.slice_cli hparsed haddress hcontained hapart.header,
    ⟨_, h.slice_metadata haddress hcontained, hread⟩, hpdb⟩

/-- A PDB that goes with an image is written, and its hashes are renewed. -/
lemma Stages.Unsigned.exists_written (h : s.Unsigned image key) {m : Metadata}
    (hm : s.arranged.2 = some m) : ∃ pdb start, s.symbols = some pdb ∧
      m.encodePdb s.encoded.2.tables = .ok (pdb, start) ∧
      PdbChecksum.update image.file s.layout pdb start s.patched = .ok () s.hashed := by
  have hwritten := h.symbols
  rw [hm] at hwritten
  obtain ⟨⟨pdb, after⟩, hwrite, hwritten⟩ := Result.bind_eq_ok.mp hwritten
  obtain ⟨⟨pdb', start⟩, hencode, hwrite⟩ := Result.bind_eq_ok.mp hwrite
  obtain ⟨_, hupdate, hwrite⟩ := Result.bind_eq_ok.mp hwrite
  cases hwrite
  obtain ⟨hsome, hafter⟩ := Prod.mk.inj (Except.ok.inj hwritten)
  exact ⟨pdb, start, hsome.symm, hencode, hafter ▸ Edit.run_eq_ok.mp hupdate⟩

/-- The PDB that is written reads back as that of the image, with the row counts of the output; its
hashes are renewed without what stands where its id is read. -/
lemma Stages.Unsigned.read_symbols (h : s.Unsigned image key) (hsymbols : image.symbols = some symbols)
    (hformed : symbols.metadata.Formed)
    (hversion : symbols.metadata.root.versionBytes.size % 4 = 0)
    (hslots : symbols.metadata.slots.length < 2 ^ 16) {methods : Nat}
    (hstep : InStep methods (image.symbols.map Symbols.metadata) s.arranged.2)
    (hfit : ∀ pdb, s.symbols = some pdb → pdb.size < 2 ^ 32) :
    ∃ pdb again stream, s.symbols = some pdb ∧ Metadata.read pdb = .ok again ∧
      again.pdb.map (fun header => (header.id, header.referenced)) =
        symbols.metadata.pdb.map (fun header => (header.id, header.referenced)) ∧
      (∃ header : Option PdbHeader, again.pdb = header.map (·.refreshed s.encoded.2.tables)) ∧
      DebugRows methods again ∧
      again.root.streams.find? (·.name == "#Pdb") = some stream ∧
      PdbChecksum.update image.file s.layout pdb stream.offset.toNat s.patched = .ok () s.hashed := by
  rw [hsymbols] at hstep
  cases hpdb : s.arranged.2 with
  | none =>
    rw [hpdb] at hstep
    cases hstep
  | some m =>
    rw [hpdb] at hstep
    obtain ⟨hkept, hrows⟩ := hstep
    obtain ⟨pdb, start, hsome, hencode, hupdate⟩ := h.exists_written hpdb
    obtain ⟨again, hread, hagain, hcount, stream, hstream, rfl⟩ :=
      Metadata.read_of_encodePdb (hkept.formed hformed) (by rwa [hkept.root]) (by rwa [hkept.slots])
        hencode (hfit pdb hsome)
    refine ⟨pdb, again, stream, hsome, hread, ?_, ⟨_, hagain⟩, ?_, hstream, hupdate⟩
    · rw [hagain, ← hkept.identity, Option.map_map]
      rfl
    · rw [DebugRows, hcount]
      exact hrows

/-- An image whose version takes three bytes. -/
def unpadded : Bytes := #[
  77, 90, 0, 0, 0, 0, 0, 0, 0, 0, 0, 0, 0, 0, 0, 0, 0, 0, 0, 0, 0, 0, 0, 0, 0, 0, 0, 0, 0, 0, 0, 0,
  0, 0, 0, 0, 0, 0, 0, 0, 0, 0, 0, 0, 0, 0, 0, 0, 0, 0, 0, 0, 0, 0, 0, 0, 0, 0, 0, 0, 64, 0, 0, 0,
  80, 69, 0, 0, 76, 1, 1, 0, 0, 0, 0, 0, 0, 0, 0, 0, 0, 0, 0, 0, 216, 0, 2, 33, 11, 1, 0, 0, 0, 0,
  0, 0, 0, 0, 0, 0, 0, 0, 0, 0, 0, 0, 0, 0, 0, 0, 0, 0, 0, 0, 0, 0, 0, 0, 0, 0, 0, 16, 0, 0, 1, 0,
  0, 0, 0, 0, 0, 0, 0, 0, 0, 0, 0, 0, 0, 0, 0, 0, 0, 0, 0, 32, 0, 0, 128, 1, 0, 0, 0, 0, 0, 0, 0,
  0, 0, 0, 0, 0, 0, 0, 0, 0, 0, 0, 0, 0, 0, 0, 0, 0, 0, 0, 0, 0, 0, 0, 15, 0, 0, 0, 0, 0, 0, 0, 0,
  0, 0, 0, 0, 0, 0, 0, 0, 0, 0, 0, 0, 0, 0, 0, 0, 0, 0, 0, 0, 0, 0, 0, 0, 0, 0, 0, 0, 0, 0, 0, 0,
  0, 0, 0, 0, 0, 0, 0, 0, 0, 0, 0, 0, 0, 0, 0, 0, 0, 0, 0, 0, 0, 0, 0, 0, 0, 0, 0, 0, 0, 0, 0, 0,
  0, 0, 0, 0, 0, 0, 0, 0, 0, 0, 0, 0, 0, 0, 0, 0, 0, 0, 0, 0, 0, 0, 0, 0, 0, 0, 0, 0, 0, 0, 0, 0,
  0, 0, 0, 0, 0, 0, 0, 0, 0, 0, 0, 0, 16, 0, 0, 72, 0, 0, 0, 46, 116, 101, 120, 116, 0, 0, 0, 195,
  0, 0, 0, 0, 16, 0, 0, 195, 0, 0, 0, 128, 1, 0, 0, 0, 0, 0, 0, 0, 0, 0, 0, 0, 0, 0, 0, 32, 0, 0,
  96, 0, 0, 0, 0, 0, 0, 0, 0, 0, 0, 0, 0, 0, 0, 0, 0, 0, 0, 0, 0, 0, 0, 0, 0, 0, 0, 0, 0, 0, 0, 0,
  0, 0, 0, 0, 0, 0, 0, 0, 0, 72, 0, 0, 0, 2, 0, 5, 0, 72, 16, 0, 0, 123, 0, 0, 0, 1, 0, 0, 0, 0, 0,
  0, 0, 0, 0, 0, 0, 0, 0, 0, 0, 0, 0, 0, 0, 0, 0, 0, 0, 0, 0, 0, 0, 0, 0, 0, 0, 0, 0, 0, 0, 0, 0,
  0, 0, 0, 0, 0, 0, 0, 0, 0, 0, 0, 0, 0, 0, 0, 0, 0, 0, 66, 83, 74, 66, 1, 0, 1, 0, 0, 0, 0, 0, 3,
  0, 0, 0, 118, 52, 0, 0, 0, 2, 0, 55, 0, 0, 0, 56, 0, 0, 0, 35, 126, 0, 0, 111, 0, 0, 0, 12, 0, 0,
  0, 35, 83, 116, 114, 105, 110, 103, 115, 0, 0, 0, 0, 0, 0, 0, 0, 2, 0, 0, 1, 5, 0, 0, 0, 0, 0, 0,
  0, 0, 0, 0, 0, 0, 0, 0, 0, 1, 0, 0, 0, 1, 0, 0, 0, 0, 0, 0, 0, 0, 0, 0, 0, 0, 0, 0, 0, 0, 0, 1,
  0, 0, 0, 0, 0, 1, 0, 1, 0, 0, 60, 77, 111, 100, 117, 108, 101, 62, 0, 0, 0]

def unpaddedPdb : Bytes := #[
  66, 83, 74, 66, 1, 0, 1, 0, 0, 0, 0, 0, 12, 0, 0, 0, 80, 68, 66, 32, 118, 49, 46, 48, 0, 0, 0, 0,
  0, 0, 2, 0, 60, 0, 0, 0, 32, 0, 0, 0, 35, 80, 100, 98, 0, 0, 0, 0, 92, 0, 0, 0, 36, 0, 0, 0, 35,
  126, 0, 0, 1, 2, 3, 4, 5, 6, 7, 8, 9, 10, 11, 12, 13, 14, 15, 16, 0, 0, 0, 0, 0, 0, 0, 0, 0, 0,
  0, 0, 0, 0, 0, 0, 0, 0, 0, 0, 2, 0, 0, 1, 0, 0, 0, 0, 0, 0, 1, 0, 0, 0, 0, 0, 0, 0, 0, 0, 1, 0,
  0, 0, 0, 0, 0, 0, 0, 0, 0, 0]

lemma begin_unpadded : Result.holds (do
      let image ← Image.read 0 unpadded
      image.attach "a.pdb" unpaddedPdb) (fun image =>
    Result.holds (Stages.begin image none) fun s =>
      decide (image.Plain s.layout ∧ image.symbols.isSome ∧
        (∀ symbols ∈ image.symbols, symbols.metadata.root.versionBytes.size % 4 = 0) ∧
        s.layout.sectionStart + rawSize image.file s.added < 2 ^ 32) &&
        !(Result.holds (Metadata.read s.encoded.1) fun _ => true) &&
        s.arranged.2.all fun m => Result.holds (m.encodePdb s.encoded.2.tables) fun written =>
          decide (written.2 + PdbChecksum.idSize ≤ written.1.size)) = true := by
  simp only [Image.readByTails.2, Image.attachByTails.2, Stages.beginByLists.2, Metadata.encodePdb,
    Metadata.encodeByLists.2]
  decide +kernel

/-- There is one header and one piece of metadata that an output can open with. -/
lemma Stages.Follow.eq_of_opens {after : PeFile} {cli : CliHeader} (h : s.Follow image key)
    (hparsed : image.Parsed data) (haddress : Addressable image.file s.layout s.added)
    (hcontained : image.Contained s.layout) (hapart : image.DebugApart s.layout)
    (hafter : PeFile.read s.image = .ok after) (hopens : after.Opens cli metadata) :
    Metadata.read s.encoded.1 = .ok metadata := by
  obtain rfl := h.eq_newFile haddress hcontained hafter
  obtain ⟨bytes, hbytes, hcli⟩ := h.slice_cli hparsed haddress hcontained hapart.header
  obtain ⟨⟨bytes', hbytes', hcli'⟩, ⟨root, hroot, hmetadata⟩, -⟩ := hopens
  obtain rfl := Except.ok.inj (hbytes.symm.trans hbytes')
  obtain rfl := Except.ok.inj (hcli.symm.trans hcli')
  obtain rfl := Except.ok.inj ((h.slice_metadata haddress hcontained).symm.trans hroot)
  exact hmetadata

end Output

end CliImage
