import CliImage.Proofs.Image.Prepared
import CliImage.Proofs.Layout.Simulation
import CliImage.Proofs.Output.Changes
import CliImage.Proofs.Output.Pushed

/-! An output is laid out as planned where all that the writer renews lies in data that is kept. -/

namespace CliImage

open Bytes

namespace LayoutPlan

variable {file : PeFile} {plan : LayoutPlan} {added sealed : MetaSection} {touched : Nat → Prop}
  {data out : Bytes} {x : Nat}

lemma Laid.weaken {touched' : Nat → Prop} (h : Laid file plan added touched out)
    (htouched : ∀ x, file.headersSize ≤ x → x < plan.kept → touched (plan.shift x) →
      touched' (plan.shift x)) : Laid file plan added touched' out :=
  { h with kept := fun x hle hlt hfree =>
      h.kept x hle hlt fun hx => hfree (htouched x hle hlt hx) }

lemma Alike.newFile (h : Alike added sealed) :
    plan.newFile file sealed out = plan.newFile file added out := by
  simp only [LayoutPlan.newFile, newHeaders, newSections, addedSection, h.rawSize, h.rva, h.size]

lemma Addressable.alike (h : Addressable file plan added) (halike : Alike added sealed) :
    Addressable file plan sealed :=
  ⟨h.read, h.headers, h.sections, h.planned, halike.rva.trans h.rva, h.count, by
    rw [halike.rawSize]
    exact h.size⟩

/-- Bytes of the added section may be written over. -/
lemma Laid.overlay_added (h : Laid file plan added touched data) (hplan : Planned file plan)
    (hfit : HeadersFit file) (halign : 0 < file.fileAlignment) {start : Nat} {piece : Bytes}
    (hout : data.overlay (plan.sectionStart + start) piece = out) :
    Laid file plan { added with data := added.data.overlay start piece } touched out := by
  have hkept := hplan.kept_le_start halign
  have hold : plan.oldHeaders ≤ plan.kept := hplan.oldHeaders_le hfit.size
  have hheaders := hplan.oldHeaders
  have halike : Alike added { added with data := added.data.overlay start piece } :=
    ⟨rfl, size_overlay ..⟩
  have hrewritten := h.rewrite hplan hfit (hout ▸ sameBut_overlay ..)
    (fun x hx => .inl (by have := hx.1; omega)) halike ?_
  · refine hrewritten.weaken fun x hle hlt htouched => htouched.resolve_right fun hx => ?_
    have := hx.1
    rw [shift_of_le (by omega)] at this
    omega
  · obtain ⟨hle, hget⟩ := standsAt_iff.mp h.added
    refine standsAt_iff.mpr ⟨?_, fun k hk => ?_⟩
    · rw [← hout, size_overlay, size_overlay]
      exact hle
    · rw [size_overlay] at hk
      rw [← hout, getElem?_overlay, getElem?_overlay, hget k hk]
      refine if_congr ?_ ?_ rfl
      · omega
      · congr 1
        omega

end LayoutPlan

namespace Image

variable {image : Image} {layout : LayoutPlan}

/-- All that is written over lies in data that is kept, and so do debug pointers that move. -/
structure Contained (image : Image) (layout : LayoutPlan) : Prop extends image.InPlace layout where
  written : ∀ start len, image.WrittenRun start len →
    image.file.headersSize ≤ start ∧ start + len ≤ layout.kept
  debug : LayoutPlan.DebugKept image.file layout

end Image

namespace Output

open LayoutPlan Edit

variable {image : Image} {key : Option KeyPair} {s : Stages} {plan : MethodPlan}
  {layout : LayoutPlan} {cli : CliHeader} {data before after : Bytes}

/-- The places of an output where the input's bytes may have been written over. -/
def Touched (image : Image) (layout : LayoutPlan) (x : Nat) : Prop :=
  IsDebugPointer image.file layout x ∨ layout.MovedRun image.WrittenRun x

/-- What has been laid out is written over in the runs that the passes renew. -/
lemma Stages.Unsigned.laid_built (h : s.Unsigned image key)
    (hread : PeFile.read data = .ok image.file) (hfit : HeadersFit image.file)
    (hsections : image.file.SectionsFit) (hcontained : image.Contained s.layout) :
    Laid image.file s.layout s.added (LayoutPlan.IsDebugPointer image.file s.layout) s.built ∧
      SameBut (s.layout.MovedRun image.WrittenRun) s.built s.hashed := by
  have halign := fileAlignment_pos hread
  have hplan := planned_of_ofFile h.layout halign
  have hbuilt := laid_of_build hplan hfit halign
    (fun x => debugPointer_within hread hplan hsections hcontained.debug) h.built
  refine ⟨hbuilt, h.sameBut hplan hcontained.toInPlace
    fun o ho hle hdebug => hbuilt.kept o hle ho fun hx => hdebug ?_⟩
  obtain ⟨hgrows, entries, hentries, e, he, hx⟩ := hx
  exact ⟨hgrows, entries, hentries, e, he, within_of_shift hx⟩

/-- Before it is signed an output is laid out as planned. -/
lemma Stages.Unsigned.laid (h : s.Unsigned image key) (hread : PeFile.read data = .ok image.file)
    (hfit : HeadersFit image.file) (hsections : image.file.SectionsFit)
    (hcontained : image.Contained s.layout) :
    Laid image.file s.layout s.added (Touched image s.layout) s.hashed := by
  have halign := fileAlignment_pos hread
  have hplan := planned_of_ofFile h.layout halign
  have hkept := hplan.kept_le_start halign
  have hheaders := hplan.oldHeaders
  obtain ⟨hbuilt, hsame⟩ := h.laid_built hread hfit hsections hcontained
  refine hbuilt.of_sameBut hplan hfit halign hsame fun x hx => .inl ?_
  obtain ⟨start, len, hrun, hle, hlt⟩ := hx
  obtain ⟨hstart, hend⟩ := hcontained.written start len hrun
  rw [shift_of_le (by omega)] at hle hlt
  omega

/-- Signature and checksum are written apart from the data that is kept. -/
lemma Stages.Follow.getElem?_hashed (h : s.Follow image key)
    (hread : PeFile.read data = .ok image.file) (hfit : HeadersFit image.file) {o : Nat}
    (hle : image.file.headersSize ≤ o) (hlt : o < s.layout.kept) :
    s.image[s.layout.shift o]? = s.hashed[s.layout.shift o]? := by
  have hplan := planned_of_ofFile h.layout (fileAlignment_pos hread)
  have hkept := hplan.kept_le_start (fileAlignment_pos hread)
  have hold := hplan.oldHeaders
  have htable := hfit.table_le
  have htabled := hfit.table
  obtain ⟨_, hlast⟩ := h.image
  rw [shift_of_le (by omega), (sameBut_checksum hlast).2 _ fun hx => ?_,
    (sameBut_signed h.signed).2 _ fun hx => ?_]
  · omega
  · have := hx.2
    simp only [PeHeaders.checksumOffset, PeHeaders.optionalOffset] at this
    omega

lemma Stages.Follow.signature (h : s.Follow image key) : s.signed = s.hashed ∨
    ∃ pair, key = some pair ∧ ∃ signature : Bytes,
      s.hashed.overlay (s.layout.sectionOffset s.cli.strongName.rva) signature = s.signed := by
  have hsigned := h.signed
  unfold signOutput at hsigned
  split at hsigned
  · exact .inl (Except.ok.inj hsigned).symm
  · rename_i pair
    simp only [StrongName.sign, Result.unless_throw_eq_ok, Result.bind_eq_ok] at hsigned
    obtain ⟨-, _, -, signature, -, hput⟩ := hsigned
    unfold Bytes.put at hput
    split at hput
    · exact .inr ⟨pair, rfl, signature, Except.ok.inj hput⟩
    · cases hput

/-- An output is laid out as planned, with the signature in the room that was left for it and the
metadata as it was pushed. -/
theorem Stages.Follow.laid (h : s.Follow image key) (hread : PeFile.read data = .ok image.file)
    (hfit : HeadersFit image.file) (hsections : image.file.SectionsFit)
    (hcontained : image.Contained s.layout) (hsize : s.added.data.size < 2 ^ 32) :
    ∃ sealed, Alike s.added sealed ∧
      sealed.data.StandsAt (s.cli.metadata.rva.toNat - s.layout.sectionRva.toNat) s.encoded.1 ∧
      Laid image.file s.layout sealed (Touched image s.layout) s.image := by
  have halign := fileAlignment_pos hread
  have hplan := planned_of_ofFile h.layout halign
  have hheaders := hplan.oldHeaders
  have hold : s.layout.oldHeaders ≤ s.layout.kept := hplan.oldHeaders_le hfit.size
  have htables := hfit.table_le
  have htable := hfit.table
  obtain ⟨checksum, hlast⟩ := h.image
  obtain ⟨hrva, hmetadata, -, hbehind⟩ := h.standsAt_metadata hsize
  have hunsigned := h.toUnsigned.laid hread hfit hsections hcontained
  have hlaid : ∃ sealed, Alike s.added sealed ∧
      sealed.data.StandsAt (s.cli.metadata.rva.toNat - s.layout.sectionRva.toNat) s.encoded.1 ∧
      Laid image.file s.layout sealed (Touched image s.layout) s.signed := by
    rcases h.signature with hsame | ⟨pair, rfl, signature, hput⟩
    · exact ⟨s.added, ⟨rfl, rfl⟩, hmetadata, hsame ▸ hunsigned⟩
    · rw [sectionOffset] at hput
      refine ⟨{ s.added with data := s.added.data.overlay _ signature }, ⟨rfl, size_overlay ..⟩,
        (sameBut_overlay ..).standsAt (fun x hx hlate => ?_) hmetadata,
        hunsigned.overlay_added hplan hfit halign hput⟩
      have := hbehind rfl
      have := hx.2
      have := hlate.1
      omega
  obtain ⟨sealed, halike, hsealed, hlaid⟩ := hlaid
  refine ⟨sealed, halike, hsealed, (hlaid.of_sameBut hplan hfit halign (sameBut_checksum hlast)
    fun x hx => .inr hx).weaken fun x hle hlt hx => hx.resolve_right fun hx => ?_⟩
  have := hx.2
  rw [shift_of_le (by omega)] at this
  simp only [PeHeaders.checksumOffset, PeHeaders.optionalOffset] at this
  omega

/-- An output that can be addressed is laid out as planned. -/
lemma Stages.Follow.placed (h : s.Follow image key)
    (haddress : Addressable image.file s.layout s.added) (hcontained : image.Contained s.layout) :
    ∃ sealed, Alike s.added sealed ∧
      sealed.data.StandsAt (s.cli.metadata.rva.toNat - s.layout.sectionRva.toNat) s.encoded.1 ∧
      Placed image.file s.layout sealed (Touched image s.layout) s.image := by
  have hraw := haddress.le_rawSize
  have hlarge := haddress.size
  obtain ⟨sealed, halike, hsealed, hlaid⟩ :=
    h.laid haddress.read haddress.headers haddress.sections hcontained (by omega)
  exact ⟨sealed, halike, hsealed, haddress.alike halike, hlaid⟩

/-- The last of the patches is the CLI header. -/
lemma patch_eq_ok (h : patch image plan layout cli before = .ok () after) : ∃ between start,
    SameBut (fun _ => True) before between ∧
      layout.offset image.file image.file.cli.rva.toNat = .ok start ∧
        Edit.put start cli.encode between = .ok () after := by
  unfold patch at h
  simp only at h
  split at h
  · obtain ⟨_, coded, hcode, h⟩ := Edit.bind_eq_ok.mp h
    obtain ⟨_, fixed, hvtable, h⟩ := Edit.bind_eq_ok.mp h
    obtain ⟨start, _, hlift, h⟩ := Edit.bind_eq_ok.mp h
    obtain ⟨hstart, rfl⟩ := lift_eq_ok.mp hlift
    exact ⟨fixed, start, ((RidMap.changes_code _ hcode).mono fun _ _ => trivial).trans
      (RidMap.changes_vtable _ hvtable), hstart, h⟩
  · obtain ⟨start, _, hlift, h⟩ := Edit.bind_eq_ok.mp h
    obtain ⟨hstart, rfl⟩ := lift_eq_ok.mp hlift
    exact ⟨before, start, SameBut.refl .., hstart, h⟩

lemma Stages.Follow.size (h : s.Follow image key) (hread : PeFile.read data = .ok image.file) :
    s.image.size = s.layout.sectionStart + rawSize image.file s.added := by
  have halign := fileAlignment_pos hread
  have hplan := planned_of_ofFile h.layout halign
  obtain ⟨_, hlast⟩ := h.image
  obtain ⟨_, _, hsame, -, hput⟩ := patch_eq_ok h.patched
  obtain ⟨-, hput⟩ := put_eq_ok.mp hput
  rw [(sameBut_checksum hlast).1, (sameBut_signed h.signed).1,
    (sameBut_symbols h.symbols).1, ← hput, size_overlay, hsame.1,
    (sameBut_of_build h.built).1, size_place hplan.kept_le (hplan.kept_le_start halign) halign]

lemma Stages.Start.addressable (h : s.Start image key) (hread : PeFile.read data = .ok image.file)
    (hfit : HeadersFit image.file) (hsections : image.file.SectionsFit)
    (hcount : image.file.sections.length + 1 < 2 ^ 16)
    (hsize : s.layout.sectionStart + rawSize image.file s.added < 2 ^ 32) :
    Addressable image.file s.layout s.added := by
  obtain ⟨-, pushed, hpushed, -⟩ := h.exists_pushed
  exact ⟨by rwa [(PeFile.read_eq_ok.mp hread).1], hfit, hsections,
    planned_of_ofFile h.layout (fileAlignment_pos hread), hpushed.rva_eq, hcount, hsize⟩

lemma Stages.Follow.addressable (h : s.Follow image key) (hread : PeFile.read data = .ok image.file)
    (hfit : HeadersFit image.file) (hsections : image.file.SectionsFit)
    (hcount : image.file.sections.length + 1 < 2 ^ 16)
    (hsize : s.image.size < 2 ^ 32) : Addressable image.file s.layout s.added :=
  h.toStart.addressable hread hfit hsections hcount (by rwa [← h.size hread])

lemma Stages.Follow.eq_newFile {after : PeFile} (h : s.Follow image key)
    (haddress : Addressable image.file s.layout s.added) (hcontained : image.Contained s.layout)
    (hafter : PeFile.read s.image = .ok after) :
    after = s.layout.newFile image.file s.added s.image := by
  obtain ⟨sealed, halike, -, hplaced⟩ := h.placed haddress hcontained
  exact (hplaced.eq_newFile hafter).trans halike.newFile

lemma not_hashMoved {added : MetaSection} (haddress : Addressable image.file layout added)
    (hhash : image.HashesKept layout) {start len : Nat} (hheaders : image.file.headersSize ≤ start)
    (hend : start + len ≤ layout.kept) (hfree : ∀ x, Within start len x → ¬ Covered image.HashAt x)
    {x : Nat} (hx : Within (layout.shift start) len x) : ¬ image.HashMoved layout x := fun hrun => by
  have hle : layout.oldHeaders ≤ start := haddress.planned.oldHeaders.trans_le hheaders
  obtain ⟨o, ho, hback⟩ := exists_of_within_shift hle hx
  exact hfree o ho ((movedRun_of_hashMoved haddress.planned hhash hrun).shifted o
    (by have := ho.2; omega) hback)

/-- The CLI header stands as it has been written, if no hash is renewed in it. -/
lemma Stages.Unsigned.standsAt_cli (h : s.Unsigned image key) {start : Nat}
    (hstart : image.file.offsetOf image.file.cli.rva.toNat = .ok start)
    (hfree : ∀ x, Within (s.layout.shift start) 72 x → ¬ image.HashMoved s.layout x) :
    s.hashed.StandsAt (s.layout.shift start) s.cli.encode := by
  obtain ⟨between, start', -, hstart', hput⟩ := patch_eq_ok h.patched
  obtain ⟨_, hfound, rfl⟩ := offset_eq_ok.mp hstart'
  rw [hstart] at hfound
  cases hfound
  obtain ⟨hfit, hput⟩ := put_eq_ok.mp hput
  have hpatched : s.patched.StandsAt (s.layout.shift start) s.cli.encode := by
    rw [← hput]
    exact standsAt_overlay hfit
  refine (sameBut_symbols h.symbols).standsAt (fun x hx => hfree x ?_) hpatched
  rwa [CliHeader.size_encode] at hx

lemma Stages.Follow.standsAt_cli (h : s.Follow image key)
    (haddress : Addressable image.file s.layout s.added) {start : Nat}
    (hstart : image.file.offsetOf image.file.cli.rva.toNat = .ok start)
    (hheaders : image.file.headersSize ≤ start) (hend : start + 72 ≤ s.layout.kept)
    (hfree : ∀ x, Within (s.layout.shift start) 72 x → ¬ image.HashMoved s.layout x) :
    s.image.StandsAt (s.layout.shift start) s.cli.encode := by
  obtain ⟨hle, hget⟩ := standsAt_iff.mp (h.toUnsigned.standsAt_cli hstart hfree)
  have hsize : s.image.size = s.hashed.size := by
    obtain ⟨_, hlast⟩ := h.image
    rw [(sameBut_checksum hlast).1, (sameBut_signed h.signed).1]
  refine standsAt_iff.mpr ⟨by rwa [hsize], fun k hk => ?_⟩
  rw [← hget k hk]
  rw [CliHeader.size_encode] at hk
  have hshift : s.layout.shift start + k = s.layout.shift (start + k) := by
    rw [haddress.shift_of_data hheaders, haddress.shift_of_data (by omega), Nat.add_right_comm]
  rw [hshift, h.getElem?_hashed haddress.read haddress.headers (by omega) (by omega)]

/-- The CLI header that is written is one that reads. -/
lemma Stages.Start.cli_formed (h : s.Start image key) (hparsed : image.Parsed data)
    (haddress : Addressable image.file s.layout s.added) : s.cli.Formed := by
  obtain ⟨hsize, pushed, hpushed, hnamed⟩ := h.exists_pushed
  obtain ⟨rva, hmem, hmetadata⟩ := hnamed.metadata
  obtain ⟨hle, hstands⟩ := hpushed.standsAt hmem
  have hend := hstands.le_size
  dsimp only at hle hend
  have hraw := haddress.le_rawSize
  have haddressed := haddress.size
  have hpos := Metadata.size_of_encode h.encoded
  refine ⟨by rw [hsize]; exact hparsed.cli_formed.size, ?_⟩
  rw [hmetadata]
  rintro (hzero | hzero)
  · have hrva := haddress.rva_pos
    change rva = 0 at hzero
    rw [hzero] at hle
    change _ ≤ 0 at hle
    omega
  · have hnat := congrArg UInt32.toNat hzero
    rw [UInt32.toNat_ofNat_of_lt' (by rw [UInt32.size]; omega)] at hnat
    change s.encoded.1.size = 0 at hnat
    omega

end Output

end CliImage
