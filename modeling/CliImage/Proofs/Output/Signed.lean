import CliImage.Proofs.Image.Evaluation
import CliImage.Proofs.Output.Progress

/-! A signed output verifies: its digest is the one that was signed, although signature and checksum
are written after it has been taken. -/

namespace CliImage

open Bytes

namespace Bytes

lemma StandsAt.extract_eq {data piece : Bytes} {pos len : Nat} (h : data.StandsAt pos piece)
    (hlen : piece.size ≤ len) : ∃ back, data.extract pos (pos + len) = piece ++ back := by
  refine ⟨data.extract (pos + piece.size) (pos + len), ?_⟩
  have hsplit : data.extract pos (pos + piece.size) ++
      data.extract (pos + piece.size) (pos + len) = data.extract pos (pos + len) := by
    rw [Array.extract_append_extract, Nat.min_eq_left (Nat.le_add_right ..),
      Nat.max_eq_right (Nat.add_le_add_left hlen _)]
  rw [← hsplit, h.extract]

end Bytes

namespace LayoutPlan

variable {file : PeFile} {plan : LayoutPlan} {added : MetaSection} {out : Bytes}

/-- Room that has been pushed onto the added section is apart from the headers and from the data of
all other sections. -/
lemma Addressable.separate (h : Addressable file plan added) {rva : UInt32} {piece : Bytes}
    (hpiece : added.data.StandsAt (rva.toNat - plan.sectionRva.toNat) piece) :
    StrongName.Separate (plan.newHeaders file added)
      ⟨plan.sectionOffset rva, plan.sectionOffset rva + piece.size⟩ := by
  have hroom := h.room
  have hkept := h.kept_le
  have hheaders := h.headersSize_le
  have htable := h.headers.table_le
  have hchecksum : (plan.newHeaders file added).checksumOffset = file.headers.peOffset + 88 := rfl
  have hend := hpiece.le_size
  have hraw := h.le_rawSize
  refine ⟨?_, fun s hs hne => ?_⟩
  · change file.headers.sectionTableOffset + (plan.newSections file added).length * 40 ≤ _
    rw [newSections, List.length_append, List.length_map, List.length_singleton, Nat.succ_mul,
      ← Nat.add_assoc]
    change LayoutPlan.slot file + 40 ≤ plan.sectionOffset rva
    rw [sectionOffset]
    omega
  · rw [hchecksum]
    have htabled := h.headers.table
    rcases List.mem_append.mp hs with hs | hs
    · obtain ⟨old, hold, rfl⟩ := List.mem_map.mp hs
      obtain ⟨hle', hend'⟩ := h.rawEnd_le_kept hold hne
      have hmoved := h.rawStart_moved hold hne
      refine ⟨by omega, .inl ?_⟩
      rw [Section.rawEnd, ← Section.rawStart] at hend' ⊢
      rw [hmoved]
      change old.rawStart + plan.growth + old.rawSize.toNat ≤ plan.sectionOffset rva
      rw [sectionOffset]
      omega
    · obtain rfl := List.mem_singleton.mp hs
      have hstart := h.rawStart_added
      have hsize := h.rawSize_added
      refine ⟨by omega, .inr (.inr ?_)⟩
      rw [Section.rawEnd, ← Section.rawStart, hstart, hsize]
      simp only [sectionOffset]
      omega

end LayoutPlan

namespace Output

open LayoutPlan Edit

variable {image : Image} {key : Option KeyPair} {pair : KeyPair} {out : Output} {s : Stages}
  {plan : MethodPlan} {layout : LayoutPlan} {data before after : Bytes} {cli : CliHeader}

/-- The output reads with its headers as they have been laid out. -/
def ReadsAsLaid (image : Image) (key : Option KeyPair) (out : Output) : Prop :=
  ∀ s : Stages, s.Follow image key →
    PeFile.read out.image = .ok (s.layout.newFile image.file s.added out.image)

/-- The CLI header is found again: it lies in section data, with all that its directory names, and no
hash is renewed over it. -/
def CliKept (image : Image) (layout : LayoutPlan) : Prop :=
  ∃ s start, image.file.Leads s image.file.cli.rva.toNat start ∧
    start + image.file.cli.size.toNat ≤ layout.kept ∧
      ∀ x, Within (layout.shift start) 72 x → ¬ image.HashMoved layout x

/-- Signature and checksum are all that is written behind the hashes. -/
lemma Stages.Follow.sameBut_late (h : s.Follow image (some pair)) : ∃ value signature,
    StrongName.digest s.hashed ⟨s.layout.sectionOffset s.cli.strongName.rva,
        s.layout.sectionOffset s.cli.strongName.rva + pair.signatureSize⟩ = .ok value ∧
      pair.sign value = .ok signature ∧
      s.signed.StandsAt (s.layout.sectionOffset s.cli.strongName.rva) signature ∧
      SameBut (Within (s.layout.sectionOffset s.cli.strongName.rva) signature.size) s.hashed s.signed ∧
      SameBut (Within image.file.headers.checksumOffset 4) s.signed s.image := by
  obtain ⟨_, hlast⟩ := h.image
  have hsigned := h.signed
  simp only [signOutput, StrongName.sign, Result.unless_throw_eq_ok, Result.bind_eq_ok] at hsigned
  obtain ⟨-, value, hvalue, signature, hsignature, hput⟩ := hsigned
  exact ⟨value, signature, hvalue, hsignature, standsAt_put hput, sameBut_put hput,
    sameBut_checksum hlast⟩

/-- What an output is signed with confirms it: the digest of the whole output is the one that was
signed. -/
theorem verify_serialize {keyFile : Bytes} (hprepared : image.Prepared data)
    (hdirectories : PeHeaders.fixedSize image.file.optional.isPlus +
      8 * image.file.optional.directories.length ≤ image.file.headers.optionalSize)
    (htable : slot image.file ≤ image.file.headersSize) (hsections : image.file.SectionsFit)
    (hlayout : LayoutPlan.ofFile image.file = .ok layout)
    (hheader : 72 ≤ image.file.cli.size.toNat) (hcli : CliKept image layout)
    (hkey : KeyPair.read keyFile = .ok pair)
    (hlimit : pair.key.modulus < Rsa.PublicKey.sizeLimit)
    (h : image.serialize (some pair) = .ok out) (hsize : out.image.size < 2 ^ 32)
    (hlaid : ReadsAsLaid image (some pair) out) :
    ∃ after value signature start, PeFile.read out.image = .ok after ∧
      pair.sign value = .ok signature ∧ out.image.StandsAt start signature ∧
      StrongName.digest out.image ⟨start, start + signature.size⟩ = .ok value ∧
      StrongName.verify after pair.publicKey = .ok true := by
  obtain ⟨s, hs, rfl⟩ := serialize_eq_ok.mp h
  have hlayout' := hs.layout
  rw [hlayout] at hlayout'
  obtain rfl := Except.ok.inj hlayout'
  have hparsed := hprepared.parsed
  have hread := hparsed.file
  have hreads := hlaid s hs
  have hcount : image.file.sections.length + 1 < 2 ^ 16 := by
    have hlength := PeFile.length_sections_lt hreads
    change (s.layout.newSections image.file s.added).length < _ at hlength
    rwa [newSections, List.length_append, List.length_map, List.length_singleton] at hlength
  have haddress := hs.addressable hread
    ⟨hdirectories, htable, PeFile.headersSize_le hread hsections⟩ hsections hcount hsize
  obtain ⟨hsound, hexponent⟩ := KeyPair.sound_of_read hkey
  obtain ⟨value, signature, hvalue, hsignature, hstands, hsigned, hlast⟩ := hs.sameBut_late
  obtain ⟨hverify, hsignatureSize⟩ := KeyPair.verify_of_sign hsound hsignature
  obtain ⟨hcliSize, pushed, hpushed, hnamed⟩ := hs.exists_pushed
  obtain ⟨room, hroom, hname, -⟩ := hnamed.strongName pair rfl
  obtain ⟨hroomLe, hroomAt⟩ := hpushed.standsAt hroom
  dsimp only at hroomLe hroomAt
  have hroomRva : s.cli.strongName.rva = room := by rw [hname]
  rw [← hroomRva] at hroomLe hroomAt
  have hroomEnd := hroomAt.le_size
  rw [size_zeros] at hroomEnd
  have hraw := haddress.le_rawSize
  have hkept := haddress.kept_le
  have hheaders := haddress.headersSize_le
  have haddressed := haddress.size
  -- the signature as it stands in the output
  have hstands' : s.image.StandsAt (s.layout.sectionOffset s.cli.strongName.rva) signature := by
    refine hlast.standsAt (fun x hx hchecksum => ?_) hstands
    have hearly := haddress.headers.table_le
    have htabled := haddress.headers.table
    have hle := hx.1
    have hlt := hchecksum.2
    simp only [PeHeaders.checksumOffset, PeHeaders.optionalOffset] at hlt
    rw [sectionOffset] at hle
    omega
  have hseparate := haddress.separate hroomAt
  rw [size_zeros, ← hsignatureSize] at hseparate
  rw [← hsignatureSize] at hvalue
  have hsame : SameBut (StrongName.WrittenLate (s.layout.newHeaders image.file s.added)
      ⟨s.layout.sectionOffset s.cli.strongName.rva,
        s.layout.sectionOffset s.cli.strongName.rva + signature.size⟩) s.hashed s.image := by
    refine (hsigned.mono fun x hx => .inl ?_).trans (hlast.mono fun x hx => .inr hx)
    rwa [StrongName.Range.length, Nat.add_sub_cancel_left]
  obtain ⟨-, hheadersRead, hok, -⟩ := PeFile.read_eq_ok.mp hreads
  have hdigest := StrongName.digest_congr hseparate hsame
    (o := s.layout.newOptional image.file) rfl
    (by rw [newOptional, length_newDirectories]; exact hdirectories)
    (PeFile.accept_eq_some.mpr ⟨hheadersRead, hok⟩) hvalue
  refine ⟨_, value, signature, _, hreads, hsignature, hstands', hdigest, ?_⟩
  -- the verifier reads the header that names the signature
  obtain ⟨sec, start, hleads, hend, hfree⟩ := hcli
  have hstart := haddress.offset_lt_kept hleads
  have hcliAt := hs.standsAt_cli haddress hleads.2 hstart.1 (by omega) hfree
  have hmoved : (s.layout.newFile image.file s.added s.image).Leads _ _ _ :=
    haddress.leads_moved hleads
  obtain ⟨back, hback⟩ : ∃ back, s.image.extract (s.layout.shift start)
      (s.layout.shift start + image.file.cli.size.toNat) = s.cli.encode ++ back :=
    hcliAt.extract_eq (by rwa [CliHeader.size_encode])
  have hshift : s.layout.shift start = start + s.layout.growth := haddress.shift_of_data hstart.1
  have hlength := hs.size hread
  have hslice : (s.layout.newFile image.file s.added s.image).slice image.file.cli.rva.toNat
      image.file.cli.size.toNat = .ok (s.cli.encode ++ back) := by
    rw [PeFile.slice, hmoved.2, Result.ok_bind, ← hback]
    exact if_pos (by change _ ≤ s.image.size; omega)
  have hformed := hs.cli_formed hparsed haddress
  have hlong : signature.size < 2 ^ 32 := by omega
  have hne : 0 < signature.size := by
    have hmodulus : pair.key.modulus ≠ 0 := Nat.ne_of_gt (Nat.zero_lt_of_lt hsound.1.1)
    rw [hsignatureSize, KeyPair.signatureSize, Rsa.PublicKey.size, Rsa.byteLength, if_neg hmodulus]
    exact Nat.succ_pos _
  have hsizeName : s.cli.strongName.size.toNat = signature.size := by
    rw [hname, ← hsignatureSize]
    exact UInt32.toNat_ofNat_of_lt' hlong
  have hrva := haddress.rva_pos
  have hfound : (s.layout.newFile image.file s.added s.image).offsetOf
      s.cli.strongName.rva.toNat = .ok (s.layout.sectionOffset s.cli.strongName.rva) := by
    rw [sectionOffset, ← haddress.rva]
    rw [← haddress.rva] at hroomLe hroomEnd
    exact (haddress.leads_added hroomLe (by omega) s.cli.strongName.rva.toNat_lt).2
  have hnamed' : ¬ (s.cli.strongName.rva = 0 ∨ s.cli.strongName.size = 0) := by
    rw [← UInt32.toNat_inj, ← UInt32.toNat_inj, hsizeName]
    change ¬ (s.cli.strongName.rva.toNat = 0 ∨ signature.size = 0)
    omega
  have hstored : Bytes.slice s.image (s.layout.sectionOffset s.cli.strongName.rva)
      s.cli.strongName.size.toNat = .ok signature := by
    rw [Bytes.slice, if_pos (by rw [hsizeName]; exact hstands'.le_size), hsizeName, hstands'.extract]
  unfold StrongName.verify
  rw [newFile_cli, hslice, Result.ok_bind, CliHeader.read_encode hformed, Result.ok_bind,
    if_neg hnamed', hfound, Result.ok_bind]
  change (Bytes.slice s.image _ _ >>= _) = _
  rw [hstored, Result.ok_bind, hsizeName]
  change (StrongName.digest s.image _ >>= _) = _
  rw [hdigest, Result.ok_bind, KeyPair.readPublicKey_publicKey hsound hexponent hlimit,
    Result.ok_bind, hverify]
  rfl

/-- An output in a plain layout reads with its headers as they have been laid out. -/
lemma readsAsLaid_of_plain (hprepared : image.Prepared data)
    (hlayout : LayoutPlan.ofFile image.file = .ok layout) (hplain : image.Plain layout)
    (hversion : image.metadata.root.versionBytes.size % 4 = 0)
    (hslots : image.metadata.slots.length < 2 ^ 16) (h : image.serialize key = .ok out)
    (hsize : out.image.size < 2 ^ 32) : ReadsAsLaid image key out := fun s hs => by
  obtain rfl : out = ⟨s.image, s.symbols⟩ :=
    Except.ok.inj (h.symm.trans (serialize_eq_ok.mpr ⟨s, hs, rfl⟩))
  obtain rfl : layout = s.layout := Except.ok.inj (hlayout.symm.trans hs.layout)
  have haddress := hs.addressable hprepared.parsed.file hplain.headers hplain.sections hplain.count
    hsize
  have hraw := haddress.le_rawSize
  have hlarge := haddress.size
  obtain ⟨metadata, hread, hroot⟩ :=
    hs.read_back hprepared hversion hslots (by omega)
  exact hs.read_image hplain.found haddress hplain.contained hread hroot

lemma cliKept_of_plain {added : MetaSection} (haddress : Addressable image.file layout added)
    (hplain : image.Plain layout) (hcli : image.file.cli.size.toNat ≤ 72) : CliKept image layout := by
  obtain ⟨start, hstart, -⟩ := hplain.cli
  obtain ⟨hle, hend⟩ := hplain.contained.written start 72 (.cli ⟨rfl, hstart⟩)
  obtain ⟨sec, hleads⟩ := (PeFile.offsetOf_eq_ok hstart).resolve_right fun ⟨_, hlt, heq⟩ => by omega
  have hfree : ∀ x, Within start 72 x → ¬ Covered image.HashAt x := fun x =>
    hplain.not_covered_hashAt (.inr (.inr ⟨rfl, hstart⟩))
  exact ⟨sec, start, hleads, by omega, fun x =>
    not_hashMoved haddress hplain.contained.hash hle hend hfree⟩

lemma read_mersennePair : KeyPair.read (KeyPair.file mersennePair.key 1056) = .ok mersennePair :=
  KeyPair.read_file signs_mersennePair.1 (by decide) (by decide) (by decide) (by decide +kernel)
    (by decide +kernel) (by decide +kernel) (by decide +kernel) (by decide +kernel)

/-- The linked image with an initializer verifies once it has been signed. -/
theorem verify_serialize_initialized : ∃ (image : Image) (layout : LayoutPlan) (out : Output),
    image.Prepared linked ∧
    PeHeaders.fixedSize image.file.optional.isPlus +
      8 * image.file.optional.directories.length ≤ image.file.headers.optionalSize ∧
    slot image.file ≤ image.file.headersSize ∧ image.file.SectionsFit ∧
    LayoutPlan.ofFile image.file = .ok layout ∧ 72 ≤ image.file.cli.size.toNat ∧
    CliKept image layout ∧ KeyPair.read (KeyPair.file mersennePair.key 1056) = .ok mersennePair ∧
    mersennePair.key.modulus < Rsa.PublicKey.sizeLimit ∧
    image.serialize (some mersennePair) = .ok out ∧ out.image.size < 2 ^ 32 ∧
    ReadsAsLaid image (some mersennePair) out ∧
    ∃ after value signature start, PeFile.read out.image = .ok after ∧
      mersennePair.sign value = .ok signature ∧ out.image.StandsAt start signature ∧
      StrongName.digest out.image ⟨start, start + signature.size⟩ = .ok value ∧
      StrongName.verify after mersennePair.publicKey = .ok true := by
  obtain ⟨image, s, _, hprepared, hs, hplain, hversion, hslots, haddress, hcli, -⟩ :=
    exists_follow_initialized
  have hserialize := serialize_eq_ok.mpr ⟨s, hs, rfl⟩
  have hsize : s.image.size < 2 ^ 32 := by
    rw [hs.size hprepared.parsed.file]
    exact haddress.size
  have hheader : image.file.cli.size.toNat = 72 := by rw [hcli]; rfl
  have hkept := cliKept_of_plain haddress hplain hheader.le
  have hlimit : mersennePair.key.modulus < Rsa.PublicKey.sizeLimit := by decide +kernel
  have hlaid := readsAsLaid_of_plain hprepared hs.layout hplain hversion hslots hserialize hsize
  exact ⟨image, s.layout, _, hprepared, hplain.headers.directories, hplain.headers.table,
    hplain.sections, hs.layout, hheader.ge, hkept, read_mersennePair, hlimit, hserialize, hsize,
    hlaid, verify_serialize hprepared hplain.headers.directories hplain.headers.table
      hplain.sections hs.layout hheader.ge hkept read_mersennePair hlimit hserialize hsize hlaid⟩

/-- An image whose CLI header reaches beyond the file, as its directory tells. -/
def longHeader : Bytes := #[
  77, 90, 0, 0, 0, 0, 0, 0, 0, 0, 0, 0, 0, 0, 0, 0, 0, 0, 0, 0, 0, 0, 0, 0, 0, 0, 0, 0, 0, 0, 0, 0,
  0, 0, 0, 0, 0, 0, 0, 0, 0, 0, 0, 0, 0, 0, 0, 0, 0, 0, 0, 0, 0, 0, 0, 0, 0, 0, 0, 0, 64, 0, 0, 0,
  80, 69, 0, 0, 76, 1, 1, 0, 0, 0, 0, 0, 0, 0, 0, 0, 0, 0, 0, 0, 216, 0, 2, 33, 11, 1, 0, 0, 0, 0,
  0, 0, 0, 0, 0, 0, 0, 0, 0, 0, 0, 0, 0, 0, 0, 0, 0, 0, 0, 0, 0, 0, 0, 0, 0, 0, 0, 16, 0, 0, 1, 0,
  0, 0, 0, 0, 0, 0, 0, 0, 0, 0, 0, 0, 0, 0, 0, 0, 0, 0, 0, 32, 0, 0, 128, 1, 0, 0, 0, 0, 0, 0, 0,
  0, 0, 0, 0, 0, 0, 0, 0, 0, 0, 0, 0, 0, 0, 0, 0, 0, 0, 0, 0, 0, 0, 0, 15, 0, 0, 0, 0, 0, 0, 0, 0,
  0, 0, 0, 0, 0, 0, 0, 0, 0, 0, 0, 0, 0, 0, 0, 0, 0, 0, 0, 0, 0, 0, 0, 0, 0, 0, 0, 0, 0, 0, 0, 0,
  0, 0, 0, 0, 0, 0, 0, 0, 0, 0, 0, 0, 0, 0, 0, 0, 0, 0, 0, 0, 0, 0, 0, 0, 0, 0, 0, 0, 0, 0, 0, 0,
  0, 0, 0, 0, 0, 0, 0, 0, 0, 0, 0, 0, 0, 0, 0, 0, 0, 0, 0, 0, 0, 0, 0, 0, 0, 0, 0, 0, 0, 0, 0, 0,
  0, 0, 0, 0, 0, 0, 0, 0, 0, 0, 0, 0, 16, 0, 0, 72, 16, 0, 0, 46, 116, 101, 120, 116, 0, 0, 0, 248,
  0, 0, 0, 0, 16, 0, 0, 248, 0, 0, 0, 128, 1, 0, 0, 0, 0, 0, 0, 0, 0, 0, 0, 0, 0, 0, 0, 32, 0, 0,
  96, 0, 0, 0, 0, 0, 0, 0, 0, 0, 0, 0, 0, 0, 0, 0, 0, 0, 0, 0, 0, 0, 0, 0, 0, 0, 0, 0, 0, 0, 0, 0,
  0, 0, 0, 0, 0, 0, 0, 0, 0, 72, 0, 0, 0, 2, 0, 5, 0, 72, 16, 0, 0, 176, 0, 0, 0, 1, 0, 0, 0, 0, 0,
  0, 0, 0, 0, 0, 0, 0, 0, 0, 0, 0, 0, 0, 0, 0, 0, 0, 0, 0, 0, 0, 0, 0, 0, 0, 0, 0, 0, 0, 0, 0, 0,
  0, 0, 0, 0, 0, 0, 0, 0, 0, 0, 0, 0, 0, 0, 0, 0, 0, 0, 66, 83, 74, 66, 1, 0, 1, 0, 0, 0, 0, 0, 4,
  0, 0, 0, 118, 52, 0, 0, 0, 0, 3, 0, 72, 0, 0, 0, 84, 0, 0, 0, 35, 126, 0, 0, 156, 0, 0, 0, 16, 0,
  0, 0, 35, 83, 116, 114, 105, 110, 103, 115, 0, 0, 0, 0, 172, 0, 0, 0, 4, 0, 0, 0, 35, 66, 108,
  111, 98, 0, 0, 0, 0, 0, 0, 0, 2, 0, 0, 1, 5, 0, 0, 0, 1, 0, 0, 0, 0, 0, 0, 0, 0, 0, 0, 0, 1, 0,
  0, 0, 1, 0, 0, 0, 1, 0, 0, 0, 0, 0, 0, 0, 0, 0, 0, 0, 0, 0, 0, 0, 0, 0, 1, 0, 0, 0, 0, 0, 1, 0,
  1, 0, 4, 128, 0, 0, 1, 0, 0, 0, 0, 0, 0, 0, 0, 0, 0, 0, 0, 0, 10, 0, 0, 0, 0, 0, 0, 60, 77, 111,
  100, 117, 108, 101, 62, 0, 65, 0, 0, 0, 0, 0, 0, 0, 0, 0]

lemma begin_longHeader : Result.holds (Image.read 0 longHeader) (fun image =>
    Result.holds (Stages.begin image (some mersennePair)) fun s =>
      decide (image.Plain s.layout ∧ image.metadata.root.versionBytes.size % 4 = 0 ∧
        image.metadata.slots.length < 2 ^ 16 ∧
        s.layout.sectionStart + rawSize image.file s.added < 2 ^ 12 ∧ s.arranged.2.isNone ∧
        2 ^ 12 ≤ image.file.cli.size.toNat)) = true := by
  rw [Image.readByTails.2, Stages.beginByLists.2]
  decide +kernel

/-- The header of a file cannot be sliced where its directory tells of more than there is. -/
lemma not_verify_of_long {file : PeFile} {publicKey : Bytes}
    (h : file.data.size < file.cli.size.toNat) {b : Bool} :
    StrongName.verify file publicKey ≠ .ok b := fun hverify => by
  obtain ⟨_, hslice, -⟩ := Result.bind_eq_ok.mp hverify
  have := PeFile.size_of_slice hslice
  obtain ⟨start, -, hslice⟩ := Result.bind_eq_ok.mp hslice
  unfold Bytes.slice at hslice
  split at hslice
  · omega
  · cases hslice

/-- A signed output does not verify if its CLI header is said to reach beyond it. -/
theorem not_verify_serialize_longHeader : ∃ (image : Image) (out : Output) (after : PeFile),
    image.Prepared longHeader ∧ image.file.SectionsFit ∧ 72 ≤ image.file.cli.size.toNat ∧
    image.serialize (some mersennePair) = .ok out ∧ PeFile.read out.image = .ok after ∧
    StrongName.verify after mersennePair.publicKey ≠ .ok true := by
  obtain ⟨image, hread, hchecks⟩ := Result.exists_of_holds begin_longHeader
  obtain ⟨s, hbegin, hchecks⟩ := Result.exists_of_holds hchecks
  obtain ⟨hplain, hversion, hslots, hsize, hnone, hlong⟩ := of_decide_eq_true hchecks
  have hprepared : image.Prepared longHeader := .read hread
  obtain ⟨t, ht, hlayout, hadded, -, -⟩ := exists_follow (Stages.start_of_begin hbegin) hprepared
    hplain hversion hslots (by omega) (by simp [Option.isNone_iff_eq_none.mp hnone]) fun pair hpair =>
      Option.some.inj hpair ▸ signs_mersennePair
  have hserialize := serialize_eq_ok.mpr ⟨t, ht, rfl⟩
  have hlength : t.image.size < 2 ^ 12 := by
    rw [ht.size hprepared.parsed.file, hlayout, hadded]
    exact hsize
  have hreads := readsAsLaid_of_plain hprepared ht.layout (hlayout ▸ hplain) hversion
    hslots hserialize (by change t.image.size < _; omega) t ht
  refine ⟨image, _, _, hprepared, hplain.sections, by omega, hserialize, hreads,
    not_verify_of_long ?_⟩
  rw [newFile_cli]
  change t.image.size < _
  omega

end Output

end CliImage
