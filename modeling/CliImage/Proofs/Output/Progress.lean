import CliImage.Proofs.Image.Evaluation
import CliImage.Proofs.Output.Written
import CliImage.Proofs.StrongName.Digest
import CliImage.Proofs.StrongName.Key
import Mathlib.NumberTheory.LucasLehmer

/-! The passes over the bytes of an output succeed where they find what they renew. -/

namespace CliImage.Output

open Bytes Edit LayoutPlan

variable {image : Image} {added : MetaSection} {plan : MethodPlan} {layout : LayoutPlan} {cli : CliHeader} {n : Nat}

lemma runs_patch (hcode : ∀ a ∈ RidMap.operands (image.methods.toList.filter fun m => !m.isAdded),
      a.1.rva.toNat + a.1.size - 4 < 2 ^ 32 ∧
        ∃ o, RidMap.PlacedAt (layout.offset image.file) a.1 o ∧ o + 4 ≤ n)
    (hfixups : image.cli.vtableFixups.rva = 0 ∨ image.cli.vtableFixups.size = 0)
    (hheader : ∃ o, layout.offset image.file image.file.cli.rva.toNat = .ok o ∧ o + 72 ≤ n) :
    Runs (patch image plan layout cli) n := by
  obtain ⟨o, ho, hfit⟩ := hheader
  have hput : Runs (do
      let start ← Edit.lift (layout.offset image.file image.file.cli.rva.toNat)
      Edit.put start cli.encode : Edit Unit) n :=
    Runs.lift_bind ho (Runs.put (by rwa [CliHeader.size_encode]))
  unfold patch
  simp only
  split
  · refine (RidMap.runs_code hcode).bind fun _ => Runs.bind ?_ fun _ => hput
    rw [RidMap.vtable, if_pos hfixups]
    exact Runs.pure ()
  · exact hput

lemma exists_checksum {data : Bytes} {field : Nat} (h : field + 4 ≤ data.size) :
    ∃ checksum after, Checksum.update data field = .ok (checksum, after) := by
  refine ⟨Checksum.compute data field,
    data.overlay field (ofUInt32 (Checksum.compute data field)), ?_⟩
  have hput : data.put field (ofUInt32 (Checksum.compute data field)) =
      .ok (data.overlay field (ofUInt32 (Checksum.compute data field))) :=
    if_pos (by rwa [size_ofUInt32])
  rw [Checksum.update, if_neg (by omega)]
  simp only [hput, Result.ok_bind]

/-- A layout that does not grow is built whatever is added. -/
lemma exists_built (haddress : Addressable image.file layout added)
    (hstill : layout.grows = false) : ∃ built, layout.build image.file added = .ok built :=
  exists_build haddress.planned haddress.headers (fileAlignment_pos haddress.read) fun hgrows => by
    rw [hstill] at hgrows
    cases hgrows

/-- What is hashed of a PDB is all of it, with its id cleared. -/
lemma compute_eq_ok {algorithm : String} {pdb : Bytes} {idOffset : Nat}
    (h : idOffset + PdbChecksum.idSize ≤ pdb.size) : PdbChecksum.compute algorithm pdb idOffset =
      .ok ((PdbChecksum.algorithm? algorithm).map fun hash =>
        hash (pdb.overlay idOffset (zeros PdbChecksum.idSize))) := by
  have hput : pdb.put idOffset (zeros PdbChecksum.idSize) =
      .ok (pdb.overlay idOffset (zeros PdbChecksum.idSize)) := if_pos (by rwa [size_zeros])
  rw [PdbChecksum.compute, hput, Result.ok_bind]

/-- Hashes are renewed where their records lie in the file and move into it. -/
lemma runs_updateHashes {pdb : Bytes} {idOffset : Nat} {entries : List DebugEntry}
    (hentries : image.file.debugEntries = .ok entries)
    (hhashes : ∀ e ∈ entries, e.kind = DebugEntry.pdbChecksum →
      e.dataPointer.toNat + e.dataSize.toNat ≤ image.file.data.size ∧
        layout.shift e.dataPointer.toNat + e.dataSize.toNat ≤ n)
    (hroom : idOffset + PdbChecksum.idSize ≤ pdb.size) :
    Runs (PdbChecksum.update image.file layout pdb idOffset) n := by
  refine Runs.lift_bind hentries (Runs.forM fun e he => ?_)
  obtain ⟨he, hkind⟩ := List.mem_filter.mp he
  obtain ⟨hfile, hfit⟩ := hhashes e he (by simpa using hkind)
  have hpayload : e.payload image.file = .ok (image.file.data.extract e.dataPointer.toNat
      (e.dataPointer.toNat + e.dataSize.toNat)) := if_pos hfile
  refine Runs.lift_bind hpayload ?_
  split
  · exact Runs.pure ()
  · rename_i length hlength
    have hlt := (Array.findIdx?_eq_some_iff_getElem.mp hlength).1
    refine Runs.lift_bind (compute_eq_ok hroom) ?_
    split
    · exact Runs.pure ()
    · split
      · rename_i hsize
        rw [Array.size_extract] at hlt hsize
        exact Runs.put (by omega)
      · exact Runs.pure ()

lemma exists_symbols {pdb : Option Metadata} {tables : Tables} {data : Bytes}
    {entries : List DebugEntry} (hentries : image.file.debugEntries = .ok entries)
    (hhashes : ∀ e ∈ entries, e.kind = DebugEntry.pdbChecksum →
      e.dataPointer.toNat + e.dataSize.toNat ≤ image.file.data.size ∧
        layout.shift e.dataPointer.toNat + e.dataSize.toNat ≤ data.size)
    (hpdb : ∀ m, pdb = some m → ∃ written, m.encodePdb tables = .ok written ∧
      written.2 + PdbChecksum.idSize ≤ written.1.size) : ∃ symbols after,
    writeSymbols? image.file layout pdb tables data = .ok (symbols, after) ∧
      after.size = data.size := by
  cases pdb with
  | none => exact ⟨none, data, rfl, rfl⟩
  | some m =>
    obtain ⟨⟨written, idOffset⟩, hwritten, hroom⟩ := hpdb m rfl
    obtain ⟨_, after, hupdate, hsize⟩ := runs_updateHashes hentries hhashes hroom rfl
    refine ⟨some written, after, ?_, hsize⟩
    simp only [writeSymbols?, writeSymbols, hwritten, Result.ok_bind, Edit.run_eq_ok.mpr hupdate]

/-- There is room for the signature of an output that can be read before it is signed. -/
lemma Stages.Unsigned.exists_signed {s : Stages} {pair : KeyPair}
    (h : s.Unsigned image (some pair)) (haddress : Addressable image.file s.layout s.added)
    (hread : PeFile.read s.hashed = .ok (s.layout.newFile image.file s.added s.hashed))
    (hraw : ∀ t ∈ image.file.sections, t.rawSize ≠ 0)
    (hsize : s.hashed.size = s.layout.sectionStart + rawSize image.file s.added)
    (hkey : pair.key.Sound) (hp : pair.key.p.Prime) (hq : pair.key.q.Prime)
    (hne : pair.key.p ≠ pair.key.q) (hlong : 46 ≤ pair.signatureSize) :
    ∃ signed, signOutput s.layout s.cli (some pair) s.hashed = .ok signed := by
  have hkept := haddress.kept_le
  have hfit := haddress.headers
  have htable := hfit.table
  have hraws := haddress.le_rawSize
  have hroom : slot image.file + 40 ≤ image.file.headersSize + s.layout.growth :=
    haddress.planned.room
  obtain ⟨-, hheaders, hok, hoptional, -, -, hsome⟩ := PeFile.read_eq_ok.mp hread
  have haccept : PeHeaders.accept s.hashed = some (s.layout.newHeaders image.file s.added) :=
    PeFile.accept_eq_some.mpr ⟨hheaders, hok⟩
  have hcertificate : certificateOffset image.file + 8 ≤ image.file.headers.sectionTableOffset := by
    have := hfit.directories
    obtain ⟨-, -, -, -, -, -, hcli⟩ := PeFile.read_eq_ok.mp haddress.read
    obtain ⟨_, hget, -⟩ := PeFile.directory?_isSome.mp hcli
    have hlength := (List.getElem?_eq_some_iff.mp hget).1
    rw [PeFile.cliDirectory] at hlength
    simp only [certificateOffset, PeHeaders.directoryOffset, PeHeaders.sectionTableOffset,
      PeFile.certificateDirectory]
    omega
  have hdigest : ∃ value, StrongName.digest s.hashed ⟨s.layout.sectionOffset s.cli.strongName.rva,
      s.layout.sectionOffset s.cli.strongName.rva + pair.signatureSize⟩ = .ok value ∧
        value.size = 20 := by
    refine StrongName.exists_digest haccept hoptional ?_ hcertificate ?_ fun t ht => ?_
    · have := le_certificateOffset image.file
      change image.file.headers.peOffset + 24 + 64 + 4 ≤ image.file.headers.sectionTableOffset
      omega
    · change _ + (s.layout.newSections image.file s.added).length * 40 ≤ _
      rw [newSections, List.length_append, List.length_map, List.length_singleton, Nat.succ_mul,
        ← Nat.add_assoc]
      change slot image.file + 40 ≤ _
      have := hfit.size
      have := haddress.headersSize_le
      omega
    · rcases List.mem_append.mp ht with ht | ht
      · obtain ⟨old, hold, rfl⟩ := List.mem_map.mp ht
        have hend := (haddress.rawEnd_le_kept hold (hraw old hold)).2
        rw [Section.rawEnd, ← Section.rawStart] at hend ⊢
        rw [haddress.rawStart_moved hold (hraw old hold)]
        change old.rawStart + s.layout.growth + old.rawSize.toNat ≤ _
        omega
      · obtain rfl := List.mem_singleton.mp ht
        rw [Section.rawEnd, ← Section.rawStart, haddress.rawStart_added, haddress.rawSize_added,
          hsize]
  obtain ⟨value, hvalue, hlength⟩ := hdigest
  obtain ⟨signature, hsign⟩ := KeyPair.exists_sign hkey hp hq hne hlong hlength
  obtain ⟨-, pushed, hpushed, hnamed⟩ := h.exists_pushed
  obtain ⟨room, hmem, hname, -⟩ := hnamed.strongName pair rfl
  obtain ⟨-, hstands⟩ := hpushed.standsAt hmem
  have hend := hstands.le_size
  rw [size_zeros] at hend
  have hsigned := (KeyPair.verify_of_sign hkey hsign).2
  have hput : s.hashed.put (s.layout.sectionOffset s.cli.strongName.rva) signature =
      .ok (s.hashed.overlay (s.layout.sectionOffset s.cli.strongName.rva) signature) := by
    refine if_pos ?_
    rw [sectionOffset, hname]
    dsimp only at hend ⊢
    omega
  refine ⟨s.hashed.overlay (s.layout.sectionOffset s.cli.strongName.rva) signature, ?_⟩
  simp only [signOutput, StrongName.sign, Result.unless_throw_eq_ok, Result.bind_eq_ok]
  exact ⟨by simp [StrongName.Range.length], value, hvalue, signature, hsign, hput⟩

/-- Operands are found where the layout has put them. -/
lemma placedAt_of_plain (hplain : image.Plain layout)
    (haddress : Addressable image.file layout added) {a : Instruction × Token}
    (ha : a ∈ RidMap.operands (image.methods.toList.filter fun m => !m.isAdded)) :
    a.1.rva.toNat + a.1.size - 4 < 2 ^ 32 ∧ ∃ o,
      RidMap.PlacedAt (layout.offset image.file) a.1 o ∧ o + 4 ≤ layout.sectionStart := by
  obtain ⟨tokens, htokens, ha⟩ := List.mem_flatten.mp ha
  obtain ⟨m, hm, rfl⟩ := List.mem_map.mp htokens
  obtain ⟨hm, hold⟩ := List.mem_filter.mp hm
  have hold' : m.isAdded = false := by simpa using hold
  obtain ⟨hlt, o, ho, hat⟩ := hplain.operand m hm hold' a ha
  have hrun : image.OperandRun o 4 := ⟨rfl, m, hm, hold', a, ha, hat⟩
  obtain ⟨hle, hend⟩ := hplain.contained.written o 4 (.operand hrun)
  have hkept := haddress.kept_le
  refine ⟨hlt, _, offset_eq_ok.mpr ⟨o, ho, rfl⟩, ?_⟩
  rw [haddress.shift_of_data hle]
  omega

/-- The stages up to the added section, as they are computed. -/
def Stages.begin (image : Image) (key : Option KeyPair) : Result Stages := do
  let plan := MethodPlan.ofImage image
  let layout ← LayoutPlan.ofFile image.file
  let rowed ← (plan.added.map Prod.snd).foldlM (addMethod image plan)
    ⟨⟨layout.sectionRva, #[]⟩, image.metadata, []⟩
  let arranged ← arrange plan rowed.rows rowed.metadata (image.symbols.map Symbols.metadata)
  let stored ← storeKey? arranged.1 image.cli key
  let encoded ← stored.1.encode
  match pushMetadata stored.2 encoded.1 key rowed.added with
  | .error e _ => .error e
  | .ok cli added =>
    .ok { layout, rowed, arranged, stored, encoded, cli := renumberEntryPoint plan cli, added
          built := #[], patched := #[], symbols := none, hashed := #[], signed := #[], image := #[] }

/-- The same stages, their bytes put together as lists. -/
def Stages.beginByLists :
    { begin : Image → Option KeyPair → Result Stages // Stages.begin = begin } :=
  ⟨_, by
    delta Stages.begin storeKey? storeKey Blobs.intern pushMetadata MetaSection.push
    simp only [append_eq_toArray]
    rw [Metadata.encodeByLists.2]⟩

lemma Stages.start_of_begin {s : Stages} {key : Option KeyPair}
    (h : Stages.begin image key = .ok s) : s.Start image key := by
  unfold Stages.begin at h
  simp only [Result.bind_eq_ok] at h
  obtain ⟨layout, hlayout, rowed, hrowed, arranged, harranged, stored, hstored, encoded, hencoded,
    h⟩ := h
  split at h
  · cases h
  · rename_i cli added hpushed
    cases h
    exact ⟨hlayout, hrowed, harranged, hstored, hencoded, cli, hpushed, rfl⟩

/-- The metadata that goes into the added section reads back. -/
lemma Stages.Start.read_back {data : Bytes} {s : Stages} {key : Option KeyPair}
    (h : s.Start image key) (hprepared : image.Prepared data)
    (hversion : image.metadata.root.versionBytes.size % 4 = 0)
    (hslots : image.metadata.slots.length < 2 ^ 16) (hsize : s.added.data.size < 2 ^ 32) :
    ∃ metadata, Metadata.read s.encoded.1 = .ok metadata ∧
      metadata.root.versionBytes = image.metadata.root.versionBytes := by
  have hparsed := hprepared.parsed
  obtain ⟨hkept, -⟩ := h.kept hprepared.arranged fun symbols => debugRows_of_parsed hparsed
  obtain ⟨_, -, hmetadata⟩ := hparsed.opens.metadata
  obtain ⟨-, hstands, -⟩ := h.standsAt_metadata hsize
  obtain ⟨metadata, hread, hroot, -⟩ := h.read_encoded hkept (Metadata.formed_of_read hmetadata).1
    hversion hslots (by have := hstands.le_size; omega)
  exact ⟨metadata, hread, hroot⟩

/-- The input's bytes are laid out and renewed where operands, the CLI header and hashes are found,
and there are no vtable slots. -/
lemma Stages.Start.exists_unsigned {s : Stages} {key : Option KeyPair} {entries : List DebugEntry}
    (h : s.Start image key) (haddress : Addressable image.file s.layout s.added)
    (hstill : s.layout.grows = false)
    (hcode : ∀ a ∈ RidMap.operands (image.methods.toList.filter fun m => !m.isAdded),
      a.1.rva.toNat + a.1.size - 4 < 2 ^ 32 ∧
        ∃ o, RidMap.PlacedAt (s.layout.offset image.file) a.1 o ∧ o + 4 ≤ s.layout.sectionStart)
    (hfixups : image.cli.vtableFixups.rva = 0 ∨ image.cli.vtableFixups.size = 0)
    (hheader : ∃ o, s.layout.offset image.file image.file.cli.rva.toNat = .ok o ∧
      o + 72 ≤ s.layout.sectionStart)
    (hentries : image.file.debugEntries = .ok entries)
    (hhashes : ∀ e ∈ entries, e.kind = DebugEntry.pdbChecksum →
      e.dataPointer.toNat + e.dataSize.toNat ≤ image.file.data.size ∧
        s.layout.shift e.dataPointer.toNat + e.dataSize.toNat ≤ s.layout.sectionStart)
    (hpdb : ∀ m, s.arranged.2 = some m → ∃ written, m.encodePdb s.encoded.2.tables = .ok written ∧
      written.2 + PdbChecksum.idSize ≤ written.1.size) :
    ∃ t : Stages, t.Unsigned image key ∧
      t.hashed.size = s.layout.sectionStart + rawSize image.file s.added ∧ t.layout = s.layout ∧
      t.added = s.added ∧ t.arranged = s.arranged ∧ t.encoded = s.encoded := by
  have hplan := haddress.planned
  have halign := fileAlignment_pos haddress.read
  obtain ⟨built, hbuilt⟩ := exists_built haddress hstill
  have hsize : built.size = s.layout.sectionStart + rawSize image.file s.added := by
    rw [(sameBut_of_build hbuilt).1, size_place hplan.kept_le (hplan.kept_le_start halign) halign]
  have hruns : Runs (patch image (MethodPlan.ofImage image) s.layout s.cli)
      (s.layout.sectionStart + rawSize image.file s.added) := by
    refine runs_patch (fun a ha => ?_) hfixups ?_
    · obtain ⟨hlt, o, ho, hle⟩ := hcode a ha
      exact ⟨hlt, o, ho, by omega⟩
    · obtain ⟨o, ho, hle⟩ := hheader
      exact ⟨o, ho, by omega⟩
  obtain ⟨_, patched, hpatched, hpatchedSize⟩ := hruns hsize
  have hfits : ∀ e ∈ entries, e.kind = DebugEntry.pdbChecksum →
      e.dataPointer.toNat + e.dataSize.toNat ≤ image.file.data.size ∧
        s.layout.shift e.dataPointer.toNat + e.dataSize.toNat ≤ patched.size := fun e he hkind => by
    obtain ⟨hfile, hle⟩ := hhashes e he hkind
    exact ⟨hfile, by omega⟩
  obtain ⟨symbols, hashed, hsymbols, hhashedSize⟩ := exists_symbols hentries hfits hpdb
  exact ⟨{ s with built, patched, symbols, hashed }, ⟨{ h with }, hbuilt, hpatched, hsymbols⟩,
    hhashedSize.trans hpatchedSize, rfl, rfl, rfl, rfl⟩

/-- What has been signed gets its checksum. -/
lemma Stages.Unsigned.exists_follow {s : Stages} {key : Option KeyPair} {signed : Bytes}
    (h : s.Unsigned image key) (haddress : Addressable image.file s.layout s.added)
    (hsize : s.hashed.size = s.layout.sectionStart + rawSize image.file s.added)
    (hsigned : signOutput s.layout s.cli key s.hashed = .ok signed) :
    ∃ t : Stages, t.Follow image key ∧ t.layout = s.layout ∧ t.added = s.added ∧
      t.arranged = s.arranged ∧ t.encoded = s.encoded := by
  have hfield : image.file.headers.checksumOffset + 4 ≤ signed.size := by
    rw [(sameBut_signed hsigned).1]
    have := haddress.headers.table_le
    have := haddress.headers.table
    have := haddress.headersSize_le
    have := haddress.kept_le
    simp only [PeHeaders.checksumOffset, PeHeaders.optionalOffset]
    omega
  obtain ⟨checksum, out, hlast⟩ := exists_checksum hfield
  exact ⟨{ s with signed, image := out }, ⟨{ h with }, hsigned, checksum, hlast⟩, rfl, rfl, rfl, rfl⟩

/-- In a plain layout writing comes as far as to the signature. -/
lemma Stages.Start.exists_unsigned_of_plain {s : Stages} {key : Option KeyPair}
    (h : s.Start image key) (haddress : Addressable image.file s.layout s.added)
    (hplain : image.Plain s.layout)
    (hpdb : ∀ m, s.arranged.2 = some m → ∃ written, m.encodePdb s.encoded.2.tables = .ok written ∧
      written.2 + PdbChecksum.idSize ≤ written.1.size) :
    ∃ t : Stages, t.Unsigned image key ∧
      t.hashed.size = s.layout.sectionStart + rawSize image.file s.added ∧ t.layout = s.layout ∧
      t.added = s.added ∧ t.arranged = s.arranged ∧ t.encoded = s.encoded := by
  have hkept := haddress.kept_le
  have hfile := haddress.planned.kept_le
  have hheader : ∃ o, s.layout.offset image.file image.file.cli.rva.toNat = .ok o ∧
      o + 72 ≤ s.layout.sectionStart := by
    obtain ⟨start, hcli, -⟩ := hplain.found.cli
    obtain ⟨hbehind, hend⟩ := hplain.contained.written start 72 (.cli hcli)
    refine ⟨_, offset_eq_ok.mpr ⟨start, hcli.2, rfl⟩, ?_⟩
    rw [haddress.shift_of_data hbehind]
    omega
  obtain ⟨entries, hentries, hapart, -⟩ := hplain.entries
  refine h.exists_unsigned haddress hplain.still (fun a => placedAt_of_plain hplain haddress)
    hplain.fixups hheader hentries (fun e he hkind => ?_) hpdb
  obtain ⟨hle, hend, -⟩ := (hapart e he).2.2 hkind
  rw [haddress.shift_of_data hle]
  exact ⟨by omega, by omega⟩

/-- Writing comes to an end in a plain layout. -/
theorem exists_follow {data : Bytes} {s : Stages} {key : Option KeyPair} (h : s.Start image key)
    (hprepared : image.Prepared data) (hplain : image.Plain s.layout)
    (hversion : image.metadata.root.versionBytes.size % 4 = 0)
    (hslots : image.metadata.slots.length < 2 ^ 16)
    (hsize : s.layout.sectionStart + rawSize image.file s.added < 2 ^ 32)
    (hpdb : ∀ m, s.arranged.2 = some m → ∃ written, m.encodePdb s.encoded.2.tables = .ok written ∧
      written.2 + PdbChecksum.idSize ≤ written.1.size)
    (hkey : ∀ pair, key = some pair → pair.key.Sound ∧ pair.key.p.Prime ∧ pair.key.q.Prime ∧
      pair.key.p ≠ pair.key.q ∧ 46 ≤ pair.signatureSize) :
    ∃ t : Stages, t.Follow image key ∧ t.layout = s.layout ∧ t.added = s.added ∧
      t.arranged = s.arranged ∧ t.encoded = s.encoded := by
  have haddress := h.addressable hprepared.parsed.file hplain.headers hplain.sections hplain.count
    hsize
  have hraw := haddress.le_rawSize
  obtain ⟨metadata, hread, hroot⟩ := h.read_back hprepared hversion hslots (by omega)
  obtain ⟨t, ht, hlength, hlayout, hadded, harranged, hencoded⟩ :=
    h.exists_unsigned_of_plain haddress hplain hpdb
  rw [← hlayout, ← hadded] at haddress hlength
  rw [← hlayout] at hplain
  have hsigned : ∃ signed, signOutput t.layout t.cli key t.hashed = .ok signed := by
    cases key with
    | none => exact ⟨_, rfl⟩
    | some pair =>
      obtain ⟨hsound, hp, hq, hne, hlong⟩ := hkey pair rfl
      exact ht.exists_signed haddress (ht.read_hashed hplain.found haddress hplain.contained
        (hencoded ▸ hread) hroot) hplain.raw hlength hsound hp hq hne hlong
  obtain ⟨signed, hsigned⟩ := hsigned
  rw [← hlayout, ← hadded, ← harranged, ← hencoded]
  exact ht.exists_follow haddress hlength hsigned

/-- A pair with the Mersenne prime of 521 bits. -/
def mersennePair : KeyPair where
  key := {
    modulus := 3 * mersenne 521
    exponent := 65537
    secret := 5155328233496318390256865764810548697290840245466729669258087920880340553538954146776874404297340568416582885358721232128614872261196790492751513654940106623
    p := 3
    q := mersenne 521 }

/-- An image with its PDB and an initializer that calls A::M. -/
def prepared (data pdb : Bytes) : Result Image := do
  let image ← Image.read 0 data
  let image ← image.attach "a.pdb" pdb
  image.inject ⟨0, 0, "A", "M"⟩

lemma signs_mersennePair : mersennePair.key.Sound ∧ mersennePair.key.p.Prime ∧
    mersennePair.key.q.Prime ∧ mersennePair.key.p ≠ mersennePair.key.q ∧
    46 ≤ mersennePair.signatureSize :=
  ⟨by decide +kernel, Nat.prime_three, lucas_lehmer_sufficiency 521 (by decide) (by norm_num),
    by decide +kernel, by decide +kernel⟩

/-- Whether an image and its PDB can be written up to the added section, in a plain layout, as it is
computed. -/
def Begins (image : Result Image) : Prop :=
  Result.holds image (fun image => Result.holds (Stages.begin image (some mersennePair)) fun s =>
    decide (image.Plain s.layout ∧ image.file.cli.size = 72 ∧
      image.metadata.root.versionBytes.size % 4 = 0 ∧ image.metadata.slots.length < 2 ^ 16 ∧
      s.layout.sectionStart + rawSize image.file s.added < 2 ^ 32 ∧ image.symbols.isSome ∧
      ∀ symbols ∈ image.symbols, symbols.metadata.root.versionBytes.size % 4 = 0 ∧
        symbols.metadata.slots.length < 2 ^ 16) &&
      s.arranged.2.all fun m => Result.holds (m.encodePdb s.encoded.2.tables) fun written =>
        decide (written.1.size < 2 ^ 32 ∧
          written.2 + PdbChecksum.idSize ≤ written.1.size)) = true

/-- A prepared image in a plain layout is written with its initializer, its PDB and a signature. -/
theorem exists_follow_prepared {data bytes : Bytes} (hbegins : Begins (prepared data bytes)) : ∃ (image : Image) (s : Stages) (symbols : Symbols),
    image.Prepared data ∧
    s.Follow image (some mersennePair) ∧ image.Plain s.layout ∧
    image.metadata.root.versionBytes.size % 4 = 0 ∧ image.metadata.slots.length < 2 ^ 16 ∧
    Addressable image.file s.layout s.added ∧ image.file.cli.size = 72 ∧
    image.symbols = some symbols ∧ symbols.metadata.root.versionBytes.size % 4 = 0 ∧
    symbols.metadata.slots.length < 2 ^ 16 ∧ ∀ pdb, s.symbols = some pdb → pdb.size < 2 ^ 32 := by
  obtain ⟨image, hinitialized, hchecks⟩ := Result.exists_of_holds hbegins
  obtain ⟨s, hbegin, hchecks⟩ := Result.exists_of_holds hchecks
  obtain ⟨hchecks, hwritten⟩ := Bool.and_eq_true_iff.mp hchecks
  obtain ⟨hplain, hcli, haligned, hroom, hsize, hsome, hsymbols⟩ := of_decide_eq_true hchecks
  obtain ⟨symbols, hsome⟩ := Option.isSome_iff_exists.mp hsome
  obtain ⟨hversion, hslots⟩ := hsymbols symbols hsome
  have hprepared : image.Prepared data := by
    obtain ⟨origin, hread, h⟩ := Result.bind_eq_ok.mp hinitialized
    obtain ⟨attached, hattach, hinject⟩ := Result.bind_eq_ok.mp h
    exact ((Image.Prepared.read hread).attach hattach).inject hinject
  have hpdb : ∀ m, s.arranged.2 = some m → ∃ written,
      m.encodePdb s.encoded.2.tables = .ok written ∧ written.1.size < 2 ^ 32 ∧
        written.2 + PdbChecksum.idSize ≤ written.1.size := fun m hm => by
    rw [hm] at hwritten
    obtain ⟨written, hencode, hshort⟩ := Result.exists_of_holds hwritten
    exact ⟨written, hencode, of_decide_eq_true hshort⟩
  obtain ⟨t, ht, hlayout, hadded, harranged, hencoded⟩ := exists_follow (Stages.start_of_begin hbegin)
    hprepared hplain haligned hroom hsize (fun m hm => (hpdb m hm).imp fun _ h => ⟨h.1, h.2.2⟩) fun pair hpair =>
      Option.some.inj hpair ▸ signs_mersennePair
  refine ⟨image, t, symbols, hprepared, ht, hlayout ▸ hplain, haligned, hroom, ?_, hcli, hsome,
    hversion, hslots, fun pdb hstored => ?_⟩
  · rw [hlayout, hadded]
    exact (Stages.start_of_begin hbegin).addressable hprepared.parsed.file hplain.headers
      hplain.sections hplain.count hsize
  · have hwrite := ht.symbols
    rw [harranged, hencoded] at hwrite
    cases hm : s.arranged.2 with
    | none =>
      rw [hm] at hwrite
      have hnone : none = t.symbols := congrArg Prod.fst (Except.ok.inj hwrite)
      rw [hstored] at hnone
      cases hnone
    | some m =>
      rw [hm] at hwrite
      obtain ⟨⟨bytes, start⟩, hencode, hshort, -⟩ := hpdb m hm
      simp only [writeSymbols?, writeSymbols, hencode, Result.ok_bind, Result.bind_eq_ok] at hwrite
      obtain ⟨_, ⟨_, -, hpair⟩, hwrite⟩ := hwrite
      cases hpair
      have hsome : some bytes = t.symbols := congrArg Prod.fst (Except.ok.inj hwrite)
      rw [hstored] at hsome
      cases hsome
      exact hshort

/-- An image with a method A::M and a record that links it to a PDB. -/
def linked : Bytes := #[
  77, 90, 0, 0, 0, 0, 0, 0, 0, 0, 0, 0, 0, 0, 0, 0, 0, 0, 0, 0, 0, 0, 0, 0, 0, 0, 0, 0, 0, 0, 0, 0,
  0, 0, 0, 0, 0, 0, 0, 0, 0, 0, 0, 0, 0, 0, 0, 0, 0, 0, 0, 0, 0, 0, 0, 0, 0, 0, 0, 0, 64, 0, 0, 0,
  80, 69, 0, 0, 76, 1, 1, 0, 0, 0, 0, 0, 0, 0, 0, 0, 0, 0, 0, 0, 216, 0, 2, 33, 11, 1, 0, 0, 0, 0,
  0, 0, 0, 0, 0, 0, 0, 0, 0, 0, 0, 0, 0, 0, 0, 0, 0, 0, 0, 0, 0, 0, 0, 0, 0, 0, 0, 16, 0, 0, 1, 0,
  0, 0, 0, 0, 0, 0, 0, 0, 0, 0, 0, 0, 0, 0, 0, 0, 0, 0, 0, 32, 0, 0, 128, 1, 0, 0, 0, 0, 0, 0, 0,
  0, 0, 0, 0, 0, 0, 0, 0, 0, 0, 0, 0, 0, 0, 0, 0, 0, 0, 0, 0, 0, 0, 0, 15, 0, 0, 0, 0, 0, 0, 0, 0,
  0, 0, 0, 0, 0, 0, 0, 0, 0, 0, 0, 0, 0, 0, 0, 0, 0, 0, 0, 0, 0, 0, 0, 0, 0, 0, 0, 0, 0, 0, 0, 0,
  0, 0, 0, 0, 0, 0, 0, 0, 0, 0, 0, 36, 17, 0, 0, 28, 0, 0, 0, 0, 0, 0, 0, 0, 0, 0, 0, 0, 0, 0, 0,
  0, 0, 0, 0, 0, 0, 0, 0, 0, 0, 0, 0, 0, 0, 0, 0, 0, 0, 0, 0, 0, 0, 0, 0, 0, 0, 0, 0, 0, 0, 0, 0,
  0, 0, 0, 0, 0, 0, 0, 0, 0, 0, 0, 0, 0, 16, 0, 0, 72, 0, 0, 0, 46, 116, 101, 120, 116, 0, 0, 0,
  88, 1, 0, 0, 0, 16, 0, 0, 88, 1, 0, 0, 128, 1, 0, 0, 0, 0, 0, 0, 0, 0, 0, 0, 0, 0, 0, 0, 32, 0,
  0, 96, 0, 0, 0, 0, 0, 0, 0, 0, 0, 0, 0, 0, 0, 0, 0, 0, 0, 0, 0, 0, 0, 0, 0, 0, 0, 0, 0, 0, 0, 0,
  0, 0, 0, 0, 0, 0, 0, 0, 0, 0, 72, 0, 0, 0, 2, 0, 5, 0, 72, 16, 0, 0, 212, 0, 0, 0, 1, 0, 0, 0, 0,
  0, 0, 0, 0, 0, 0, 0, 0, 0, 0, 0, 0, 0, 0, 0, 0, 0, 0, 0, 0, 0, 0, 0, 0, 0, 0, 0, 0, 0, 0, 0, 0,
  0, 0, 0, 0, 0, 0, 0, 0, 0, 0, 0, 0, 0, 0, 0, 0, 0, 0, 0, 66, 83, 74, 66, 1, 0, 1, 0, 0, 0, 0, 0,
  4, 0, 0, 0, 118, 52, 0, 0, 0, 0, 3, 0, 72, 0, 0, 0, 116, 0, 0, 0, 35, 126, 0, 0, 188, 0, 0, 0,
  16, 0, 0, 0, 35, 83, 116, 114, 105, 110, 103, 115, 0, 0, 0, 0, 204, 0, 0, 0, 8, 0, 0, 0, 35, 66,
  108, 111, 98, 0, 0, 0, 0, 0, 0, 0, 2, 0, 0, 1, 69, 0, 0, 0, 1, 0, 0, 0, 0, 0, 0, 0, 0, 0, 0, 0,
  1, 0, 0, 0, 2, 0, 0, 0, 1, 0, 0, 0, 1, 0, 0, 0, 0, 0, 0, 0, 0, 0, 0, 0, 0, 0, 0, 0, 0, 0, 1, 0,
  0, 0, 0, 0, 1, 0, 1, 0, 0, 0, 0, 0, 10, 0, 0, 0, 0, 0, 1, 0, 1, 0, 28, 17, 0, 0, 0, 0, 22, 0, 12,
  0, 1, 0, 1, 0, 4, 128, 0, 0, 1, 0, 0, 0, 0, 0, 0, 0, 0, 0, 0, 0, 0, 0, 10, 0, 0, 0, 0, 0, 0, 60,
  77, 111, 100, 117, 108, 101, 62, 0, 65, 0, 77, 0, 0, 0, 0, 3, 0, 0, 1, 0, 0, 0, 26, 40, 1, 0, 0,
  6, 42, 0, 0, 0, 0, 0, 0, 0, 0, 0, 0, 0, 0, 0, 2, 0, 0, 0, 24, 0, 0, 0, 64, 17, 0, 0, 192, 2, 0,
  0, 82, 83, 68, 83, 1, 2, 3, 4, 5, 6, 7, 8, 9, 10, 11, 12, 13, 14, 15, 16, 1, 0, 0, 0]

def linkedPdb : Bytes := #[
  66, 83, 74, 66, 1, 0, 1, 0, 0, 0, 0, 0, 12, 0, 0, 0, 80, 68, 66, 32, 118, 49, 46, 48, 0, 0, 0, 0,
  0, 0, 2, 0, 60, 0, 0, 0, 36, 0, 0, 0, 35, 80, 100, 98, 0, 0, 0, 0, 96, 0, 0, 0, 32, 0, 0, 0, 35,
  126, 0, 0, 1, 2, 3, 4, 5, 6, 7, 8, 9, 10, 11, 12, 13, 14, 15, 16, 0, 0, 0, 0, 1, 0, 0, 6, 64, 0,
  0, 0, 0, 0, 0, 0, 1, 0, 0, 0, 0, 0, 0, 0, 2, 0, 0, 1, 0, 0, 0, 0, 0, 0, 2, 0, 0, 0, 0, 0, 0, 0,
  0, 0, 1, 0, 0, 0, 0, 0, 0, 0]

/-- The linked image with its PDB and an initializer that calls A::M. -/
def initialized : Result Image := prepared linked linkedPdb

lemma begin_initialized : Begins initialized := by
  simp only [Begins, initialized, prepared, Image.readByTails.2, Image.attachByTails.2,
    Stages.beginByLists.2, Metadata.encodePdb, Metadata.encodeByLists.2]
  decide +kernel

/-- The linked image is written with its initializer, its PDB and a signature. -/
theorem exists_follow_initialized : ∃ (image : Image) (s : Stages) (symbols : Symbols),
    image.Prepared linked ∧
    s.Follow image (some mersennePair) ∧ image.Plain s.layout ∧
    image.metadata.root.versionBytes.size % 4 = 0 ∧ image.metadata.slots.length < 2 ^ 16 ∧
    Addressable image.file s.layout s.added ∧ image.file.cli.size = 72 ∧
    image.symbols = some symbols ∧ symbols.metadata.root.versionBytes.size % 4 = 0 ∧
    symbols.metadata.slots.length < 2 ^ 16 ∧ ∀ pdb, s.symbols = some pdb → pdb.size < 2 ^ 32 :=
  exists_follow_prepared begin_initialized

end CliImage.Output
