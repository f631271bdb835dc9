import CliImage.Proofs.Output.Symbols

/-! The hashes of the PDB that an image's debug directory holds are those of the PDB that is written
with it. -/

namespace CliImage

open Bytes

namespace PdbChecksum

/-- How long the hashes of an algorithm are. -/
def length? : String → Option Nat
  | "SHA256" => some 32
  | "SHA384" => some 48
  | "SHA512" => some 64
  | _ => none

lemma size_sha256 (data : Bytes) : (Hash.Sha256.sha256 data).size = 32 := by
  rw [Hash.Sha256.sha256, Hash.Sha256.hash]
  simp [Hash.Sha256.encode]

lemma size_hash512 (initial : Hash.Sha512.State) (data : Bytes) :
    (Hash.Sha512.hash initial data).size = 64 := by
  rw [Hash.Sha512.hash]
  simp [Hash.Sha512.encode]

lemma length?_of_algorithm? {algorithm : String} {hash : Bytes → Bytes}
    (h : algorithm? algorithm = some hash) (data : Bytes) :
    length? algorithm = some (hash data).size := by
  unfold algorithm? at h
  split at h
  · cases h
    rw [size_sha256]
    rfl
  · cases h
    rw [Hash.Sha512.sha384, Array.size_extract, size_hash512]
    rfl
  · cases h
    rw [Hash.Sha512.sha512, size_hash512]
    rfl
  · cases h

/-- The hash that a debug entry holds behind the name of its algorithm, if it is a known one and the
hash is as long as its hashes are, is that of some data. -/
def Holds (file : PeFile) (e : DebugEntry) (data : Bytes) : Prop :=
  ∃ payload, e.payload file = .ok payload ∧
    ∀ name hash, payload.findIdx? (· == 0) = some name →
      algorithm? (Utf8.decodeLossy (payload.extract 0 name)) = some hash →
        length? (Utf8.decodeLossy (payload.extract 0 name)) = some (payload.size - name - 1) →
          payload.extract (name + 1) payload.size = hash data

end PdbChecksum

namespace Edit

variable {γ : Type} {g : γ → Edit Unit} {before after piece : Bytes} {pos : Nat}

/-- What one of many steps leaves stays where the others do not write. -/
lemma standsAt_of_forM (places : γ → Nat → Prop) {xs : List γ} {c : γ} (hc : c ∈ xs)
    (hchanges : ∀ d ∈ xs, Changes (g d) (places d))
    (hapart : xs.Pairwise fun d d' => ∀ x, places d x → ¬ places d' x)
    (hin : ∀ x, Within pos piece.size x → places c x)
    (hleaves : ∀ before after, g c before = .ok () after → after.StandsAt pos piece)
    (h : xs.forM g before = .ok () after) : after.StandsAt pos piece := by
  induction xs generalizing before with
  | nil => cases hc
  | cons d xs ih =>
    obtain ⟨between, hfirst, hrest⟩ := forM_cons_eq_ok.mp h
    obtain ⟨hhead, htail⟩ := List.pairwise_cons.mp hapart
    have hothers : ∀ d ∈ xs, Changes (g d) (places d) := fun d hd =>
      hchanges d (List.mem_cons_of_mem _ hd)
    rcases List.mem_cons.mp hc with rfl | hc
    · have hsame : SameBut (fun x => ∃ d ∈ xs, places d x) between after :=
        Changes.forM (fun d hd => (hothers d hd).mono fun x hx => ⟨d, hd, hx⟩) hrest
      exact hsame.standsAt (fun x hx ⟨d, hd, hx'⟩ => hhead d hd x (hin x hx) hx')
        (hleaves _ _ hfirst)
    · exact ih hc hothers htail hrest

end Edit

namespace Image

/-- The debug directory and what its hash entries point at lie in data that is kept, and nothing is
written into them but the file pointers that move and each entry's own hash. -/
structure ChecksumsApart (image : Image) (layout : LayoutPlan) : Prop where
  directory : image.DirectoryApart layout
  record : ∀ entries, image.file.debugEntries = .ok entries → ∀ e ∈ entries,
    e.kind = DebugEntry.pdbChecksum → image.file.headersSize ≤ e.dataPointer.toNat ∧
      e.dataPointer.toNat + e.dataSize.toNat ≤ layout.kept ∧
        ∀ x, Within e.dataPointer.toNat e.dataSize.toNat x →
          ¬ Covered image.PatchedRun x ∧ ¬ image.IsDebugPointer layout x
  apart : ∀ entries, image.file.debugEntries = .ok entries → entries.Pairwise HashesApart

variable {image : Image} {layout : LayoutPlan}

lemma checksumsApart_iff : image.ChecksumsApart layout ↔
    (∀ d ∈ image.file.directory? PeFile.debugDirectory,
      ∀ start, image.file.offsetOf d.rva.toNat = .ok start → image.file.headersSize ≤ start ∧
        start + d.size.toNat ≤ layout.kept ∧
          ∀ r ∈ image.writtenRuns, Clear (start, d.size.toNat) r) ∧
    ∀ entries, image.file.debugEntries = .ok entries →
      (∀ e ∈ entries, e.kind = DebugEntry.pdbChecksum → image.file.headersSize ≤ e.dataPointer.toNat ∧
        e.dataPointer.toNat + e.dataSize.toNat ≤ layout.kept ∧
          (∀ r ∈ image.patchedRuns, Clear (e.dataPointer.toNat, e.dataSize.toNat) r) ∧
            ∀ r ∈ image.debugPointerRuns layout, Clear (e.dataPointer.toNat, e.dataSize.toNat) r) ∧
      entries.Pairwise HashesApart := by
  have hpointers {start len : Nat} : (∀ x, Within start len x → ¬ image.IsDebugPointer layout x) ↔
      ∀ r ∈ image.debugPointerRuns layout, Clear (start, len) r := by
    simp only [debugPointer_iff]
    exact not_covered_iff fun _ _ => Iff.rfl
  constructor
  · intro h
    refine ⟨fun d hd start hstart => ?_, fun entries hentries =>
      ⟨fun e he hkind => ?_, h.apart entries hentries⟩⟩
    · obtain ⟨hle, hend, hfree⟩ := h.directory d start hd hstart
      exact ⟨hle, hend, (not_covered_iff fun _ _ => writtenRun_iff).mp hfree⟩
    · obtain ⟨hle, hend, hfree⟩ := h.record entries hentries e he hkind
      exact ⟨hle, hend, (not_covered_iff fun _ _ => patchedRun_iff).mp fun x hx => (hfree x hx).1,
        hpointers.mp fun x hx => (hfree x hx).2⟩
  · rintro ⟨hdirectory, hrecords⟩
    refine ⟨fun d start hd hstart => ?_, fun entries hentries e he hkind => ?_,
      fun entries hentries => (hrecords entries hentries).2⟩
    · obtain ⟨hle, hend, hclear⟩ := hdirectory d hd start hstart
      exact ⟨hle, hend, fun x => not_covered_written hclear⟩
    · obtain ⟨hle, hend, hclear, hclear'⟩ := (hrecords entries hentries).1 e he hkind
      exact ⟨hle, hend, fun x hx => ⟨(not_covered_iff fun _ _ => patchedRun_iff).mpr hclear x hx,
        hpointers.mpr hclear' x hx⟩⟩

instance : Decidable (image.ChecksumsApart layout) := decidable_of_iff' _ checksumsApart_iff

lemma Plain.checksumsApart (h : image.Plain layout) : image.ChecksumsApart layout where
  directory := h.debugApart.directory
  record entries hentries e he hkind := by
    obtain ⟨entries', hentries', hapart, -⟩ := h.entries
    obtain rfl := Except.ok.inj (hentries.symm.trans hentries')
    obtain ⟨hle, hend, hclear⟩ := (hapart e he).2.2 hkind
    exact ⟨hle, hend, fun x hx => ⟨(not_covered_iff fun _ _ => patchedRun_iff).mpr hclear x hx,
      h.not_isDebugPointer⟩⟩
  apart entries hentries := by
    obtain ⟨entries', hentries', -, hapart⟩ := h.entries
    obtain rfl := Except.ok.inj (hentries.symm.trans hentries')
    exact hapart

end Image

namespace Output

open LayoutPlan PdbChecksum

variable {image : Image} {key : Option KeyPair} {out : Output} {s : Stages} {layout : LayoutPlan}
  {data pdb : Bytes} {symbols : Symbols} {idOffset : Nat} {entries : List DebugEntry}
  {e e' : DebugEntry}

/-- An entry's hash as it is renewed. -/
lemma standsAt_of_updateEntry {file : PeFile} {before after payload : Bytes} {name : Nat}
    {hash : Bytes → Bytes} (hpayload : e.payload file = .ok payload)
    (hname : payload.findIdx? (· == 0) = some name)
    (hhash : algorithm? (Utf8.decodeLossy (payload.extract 0 name)) = some hash)
    (hlength : length? (Utf8.decodeLossy (payload.extract 0 name)) = some (payload.size - name - 1))
    (h : updateEntry file layout pdb idOffset e before = .ok () after) :
    after.StandsAt (layout.shift e.dataPointer.toNat + name + 1)
      (hash (pdb.overlay idOffset (zeros idSize))) := by
  obtain ⟨_, _, hlift, h⟩ := Edit.bind_eq_ok.mp h
  obtain ⟨hpayload', rfl⟩ := Edit.lift_eq_ok.mp hlift
  obtain rfl := Except.ok.inj (hpayload.symm.trans hpayload')
  simp only [hname] at h
  obtain ⟨computed, _, hlift, h⟩ := Edit.bind_eq_ok.mp h
  obtain ⟨hcompute, rfl⟩ := Edit.lift_eq_ok.mp hlift
  obtain ⟨cleared, hput, hcompute⟩ := Result.bind_eq_ok.mp hcompute
  have hcleared : pdb.overlay idOffset (zeros idSize) = cleared := by
    unfold Bytes.put at hput
    split at hput
    · exact Except.ok.inj hput
    · cases hput
  rw [hhash] at hcompute
  cases hcompute
  have hsize := length?_of_algorithm? hhash cleared
  rw [hlength] at hsize
  simp only [Option.map_some, if_pos (Option.some.inj hsize)] at h
  obtain ⟨hfit, rfl⟩ := Edit.put_eq_ok.mp h
  rw [hcleared]
  exact standsAt_overlay hfit

/-- Each hash is renewed and not written over by the others. -/
lemma standsAt_of_updateHashes {added : MetaSection} {before after payload : Bytes} {name : Nat}
    {hash : Bytes → Bytes} (haddress : Addressable image.file layout added)
    (hapart : image.ChecksumsApart layout) (hentries : image.file.debugEntries = .ok entries)
    (he : e ∈ entries) (hkind : e.kind = DebugEntry.pdbChecksum)
    (hpayload : e.payload image.file = .ok payload)
    (hname : payload.findIdx? (· == 0) = some name)
    (hhash : algorithm? (Utf8.decodeLossy (payload.extract 0 name)) = some hash)
    (hlength : length? (Utf8.decodeLossy (payload.extract 0 name)) = some (payload.size - name - 1))
    (h : PdbChecksum.update image.file layout pdb idOffset before = .ok () after) :
    after.StandsAt (layout.shift e.dataPointer.toNat + name + 1)
      (hash (pdb.overlay idOffset (zeros idSize))) := by
  obtain ⟨_, _, hlift, h⟩ := Edit.bind_eq_ok.mp h
  obtain ⟨hentries', rfl⟩ := Edit.lift_eq_ok.mp hlift
  obtain rfl := Except.ok.inj (hentries.symm.trans hentries')
  have hkept {d : DebugEntry} (hd : d ∈ entries.filter fun e => e.kind == DebugEntry.pdbChecksum) :
      d.kind = DebugEntry.pdbChecksum ∧
        layout.shift d.dataPointer.toNat = d.dataPointer.toNat + layout.growth := by
    obtain ⟨hd, hkind⟩ := List.mem_filter.mp hd
    have hkind : d.kind = DebugEntry.pdbChecksum := by simpa using hkind
    exact ⟨hkind, haddress.shift_of_data (hapart.record _ hentries _ hd hkind).1⟩
  refine Edit.standsAt_of_forM (fun d => Within (layout.shift d.dataPointer.toNat) d.dataSize.toNat)
    (List.mem_filter.mpr ⟨he, by simp [hkind]⟩)
    (fun d hd => (changes_updateEntry pdb idOffset d).mono fun x hx => ?_) ?_ (fun x hx => ?_)
    (fun _ _ => standsAt_of_updateEntry hpayload hname hhash hlength) h
  · obtain ⟨payload, name, hpayload, -, hx⟩ := hx
    obtain ⟨hle, hlt⟩ := hx
    have := DebugEntry.size_of_payload hpayload
    exact ⟨by omega, by omega⟩
  · refine List.Pairwise.imp_of_mem (fun {d d'} hd hd' hclear x hx hx' => ?_)
      ((hapart.apart _ hentries).filter _)
    obtain ⟨hkind, hshift⟩ := hkept hd
    obtain ⟨hkind', hshift'⟩ := hkept hd'
    have hclear := hclear hkind hkind'
    rw [hshift] at hx
    rw [hshift'] at hx'
    unfold Clear at hclear
    obtain ⟨hle, hlt⟩ := hx
    obtain ⟨hle', hlt'⟩ := hx'
    dsimp only at hclear
    omega
  · have := DebugEntry.size_of_payload hpayload
    have hlong := length?_of_algorithm? hhash (pdb.overlay idOffset (zeros idSize))
    rw [hlength] at hlong
    have := Option.some.inj hlong
    have := (Array.findIdx?_eq_some_iff_getElem.mp hname).1
    exact ⟨by have := hx.1; omega, by have := hx.2; omega⟩

/-- Data that agrees up to the first zero begins with the same name. -/
lemma name_congr {payload payload' : Bytes} (hsize : payload'.size = payload.size)
    (hsame : ∀ k, (∀ name, payload.findIdx? (· == 0) = some name → k ≤ name) →
      payload'[k]? = payload[k]?) : payload'.findIdx? (· == 0) = payload.findIdx? (· == 0) ∧
    ∀ name, payload.findIdx? (· == 0) = some name → payload'.extract 0 name = payload.extract 0 name := by
  cases hname : payload.findIdx? (· == 0) with
  | none =>
    have hall : payload' = payload := Array.ext_getElem? fun k => hsame k fun name hsome => by
      rw [hname] at hsome
      cases hsome
    rw [hall]
    exact ⟨hname, fun name hsome => by cases hsome⟩
  | some name =>
    have hupto {k : Nat} (hk : k ≤ name) : payload'[k]? = payload[k]? := hsame k fun _ hsome => by
      rw [hname] at hsome
      cases hsome
      exact hk
    obtain ⟨hlt, hzero, hbefore⟩ := Array.findIdx?_eq_some_iff_getElem.mp hname
    have hget {k : Nat} (hk : k ≤ name) (hin : k < payload.size) (hin' : k < payload'.size) :
        payload'[k] = payload[k] := by
      have := hupto hk
      rwa [Array.getElem?_eq_getElem hin', Array.getElem?_eq_getElem hin, Option.some.injEq] at this
    refine ⟨Array.findIdx?_eq_some_iff_getElem.mpr ⟨by omega, by rwa [hget le_rfl hlt], fun k hk => ?_⟩,
      fun _ hsome => ?_⟩
    · rw [hget hk.le (by omega)]
      exact hbefore k hk
    · cases hsome
      have := @extract_congr payload' 0 payload 0 name fun k hk => hupto (by omega)
      rwa [Nat.zero_add] at this

/-- Nothing is written over in the record of a hash in front of it. -/
lemma Stages.Follow.getElem?_record (h : s.Follow image key)
    (haddress : Addressable image.file s.layout s.added) (hcontained : image.Contained s.layout)
    (hapart : image.ChecksumsApart s.layout) (hentries : image.file.debugEntries = .ok entries)
    (he : e ∈ entries) (hkind : e.kind = DebugEntry.pdbChecksum) {payload : Bytes}
    (hpayload : e.payload image.file = .ok payload) {k : Nat} (hk : k < e.dataSize.toNat)
    (hbefore : ∀ name, payload.findIdx? (· == 0) = some name → k ≤ name) :
    s.image[s.layout.shift (e.dataPointer.toNat + k)]? =
      image.file.data[e.dataPointer.toNat + k]? := by
  obtain ⟨hle, hend, hfree⟩ := hapart.record _ hentries e he hkind
  obtain ⟨_, -, -, hplaced⟩ := h.placed haddress hcontained
  have hin : Within e.dataPointer.toNat e.dataSize.toNat (e.dataPointer.toNat + k) :=
    ⟨by omega, by omega⟩
  obtain ⟨hpatched, hpointers⟩ := hfree _ hin
  refine hplaced.laid.kept _ (by omega) (by omega) ?_
  rintro (⟨hgrows, entries', hentries', d, hd, hx⟩ | hrun)
  · exact hpointers ⟨hgrows, entries', hentries', d, hd, within_of_shift hx⟩
  obtain ⟨start, len, hrun, hx⟩ := hrun.shifted _ (by omega) rfl
  rcases Image.writtenRun_iff_patched.mp hrun with hrun | hhash
  · exact hpatched ⟨start, len, hrun, hx⟩
  obtain ⟨entries', hentries', d, hd, hkind', hrecord, payload', name, hpayload', hname, hlt⟩ :=
    hhash.exists_entry hx
  obtain rfl := Except.ok.inj (hentries.symm.trans hentries')
  by_cases hde : d = e
  · subst hde
    obtain rfl := Except.ok.inj (hpayload.symm.trans hpayload')
    have := hbefore name hname
    omega
  · exact clear_iff.mp ((hapart.apart _ hentries).forall hd he hde hkind' hkind) _ hrecord hin

/-- An entry of an output holds the hash of the PDB that has been written. -/
lemma Stages.Follow.holds (h : s.Follow image key)
    (haddress : Addressable image.file s.layout s.added) (hcontained : image.Contained s.layout)
    (hapart : image.ChecksumsApart s.layout) (hentries : image.file.debugEntries = .ok entries)
    (he : e ∈ entries) (hkind : e.kind = DebugEntry.pdbChecksum) (hmoved : Moved s.layout e e')
    (hupdate : PdbChecksum.update image.file s.layout pdb idOffset s.patched = .ok () s.hashed) :
    PdbChecksum.Holds (s.layout.newFile image.file s.added s.image) e'
      (pdb.overlay idOffset (zeros idSize)) := by
  obtain ⟨hle, hend, -⟩ := hapart.record _ hentries e he hkind
  have hkept := haddress.kept_le
  have hfile := haddress.planned.kept_le
  have hsize := h.size haddress.read
  have hpointer := hmoved.pointer_toNat haddress hle (by omega)
  have hshift {k : Nat} : e'.dataPointer.toNat + k = s.layout.shift (e.dataPointer.toNat + k) := by
    rw [haddress.shift_of_data (by omega)]
    omega
  have hroom : e'.dataPointer.toNat + e.dataSize.toNat ≤ s.image.size := by omega
  have hpayload : e.payload image.file = .ok (image.file.data.extract e.dataPointer.toNat
      (e.dataPointer.toNat + e.dataSize.toNat)) := if_pos (by omega)
  generalize hrecord : image.file.data.extract e.dataPointer.toNat
    (e.dataPointer.toNat + e.dataSize.toNat) = payload at hpayload
  have hpayload' : e'.payload (s.layout.newFile image.file s.added s.image) = .ok (s.image.extract
      e'.dataPointer.toNat (e'.dataPointer.toNat + e.dataSize.toNat)) := by
    rw [DebugEntry.payload, hmoved.size]
    exact if_pos hroom
  have hlength := DebugEntry.size_of_payload hpayload
  have hlength' : (s.image.extract e'.dataPointer.toNat
      (e'.dataPointer.toNat + e.dataSize.toNat)).size = payload.size := by
    rw [Array.size_extract]
    omega
  obtain ⟨hnames, hnamed⟩ := name_congr hlength' fun k hbefore => by
    rw [Array.getElem?_extract]
    split
    · rw [hshift, h.getElem?_record haddress hcontained hapart hentries he hkind hpayload (by omega)
        hbefore, ← hrecord, Array.getElem?_extract, if_pos (by omega)]
    · rw [Array.getElem?_eq_none (by omega)]
  refine ⟨_, hpayload', fun name hash hname hhash hlong => ?_⟩
  rw [hnames] at hname
  rw [hnamed name hname] at hhash hlong
  rw [hlength'] at hlong ⊢
  have hstands := standsAt_of_updateHashes haddress hapart hentries he hkind hpayload hname hhash
    hlong hupdate
  rw [length?_of_algorithm? hhash (pdb.overlay idOffset (zeros idSize))] at hlong
  have hlong := Option.some.inj hlong
  have hfirst := (Array.findIdx?_eq_some_iff_getElem.mp hname).1
  -- signature and checksum leave it as it is
  obtain ⟨hfit, hget⟩ := standsAt_iff.mp hstands
  have himage : s.image.StandsAt (e'.dataPointer.toNat + (name + 1))
      (hash (pdb.overlay idOffset (zeros idSize))) := standsAt_iff.mpr ⟨by omega, fun k hk => by
    rw [← hget k hk, Nat.add_assoc, hshift, h.getElem?_hashed haddress.read haddress.headers (by omega)
      (by omega), ← hshift, haddress.shift_of_data hle, hpointer]
    congr 1
    omega⟩
  rw [Array.extract_extract, ← himage.extract]
  congr 1
  omega

/-- Every hash of a known kind in the debug directory of an output is that of the PDB that is written
with it, without the id. -/
theorem holds_serialize {after : PeFile} (hprepared : image.Prepared data)
    (hdirectories : PeHeaders.fixedSize image.file.optional.isPlus +
      8 * image.file.optional.directories.length ≤ image.file.headers.optionalSize)
    (htable : slot image.file ≤ image.file.headersSize) (hsections : image.file.SectionsFit)
    (hcount : image.file.sections.length + 1 < 2 ^ 16)
    (hlayout : LayoutPlan.ofFile image.file = .ok layout) (hcontained : image.Contained layout)
    (hapart : image.ChecksumsApart layout) (hsymbols : image.symbols = some symbols)
    (hversion : symbols.metadata.root.versionBytes.size % 4 = 0)
    (hslots : symbols.metadata.slots.length < 2 ^ 16) (h : image.serialize key = .ok out)
    (hsize : out.image.size < 2 ^ 32) (hsize' : ∀ pdb, out.symbols = some pdb → pdb.size < 2 ^ 32)
    (hafter : PeFile.read out.image = .ok after) :
    ∃ pdb again stream entries, out.symbols = some pdb ∧ Metadata.read pdb = .ok again ∧
      again.root.streams.find? (·.name == "#Pdb") = some stream ∧
      pdb.extract stream.offset.toNat (stream.offset.toNat + idSize) = symbols.id ∧
      after.debugEntries = .ok entries ∧ ∀ e ∈ entries, e.kind = DebugEntry.pdbChecksum →
        PdbChecksum.Holds after e (pdb.overlay stream.offset.toNat (zeros idSize)) := by
  obtain ⟨s, hs, rfl⟩ := serialize_eq_ok.mp h
  obtain rfl := Except.ok.inj (hlayout.symm.trans hs.layout)
  have hparsed := hprepared.parsed
  have hfit : HeadersFit image.file :=
    ⟨hdirectories, htable, PeFile.headersSize_le hparsed.file hsections⟩
  have haddress := hs.addressable hparsed.file hfit hsections hcount hsize
  obtain ⟨path, bytes, hattached⟩ := hparsed.symbols symbols hsymbols
  obtain ⟨-, m, before, hbytes, hbefore, ⟨guid, hguid, -⟩, -, hrows, rfl⟩ :=
    Symbols.parse_eq_ok.mp (Result.mapError_eq_ok.mp hattached)
  -- the PDB that is written
  obtain ⟨-, -, hstep⟩ := hs.kept hprepared.arranged fun symbols hsome => by
    rw [hsymbols] at hsome
    cases hsome
    exact hrows
  obtain ⟨pdb, again, stream, hsome, hagain, hidentity, -, -, hstream, hupdate⟩ :=
    hs.read_symbols hsymbols (Metadata.formed_of_read hbytes).1 hversion hslots hstep hsize'
  rw [hbefore] at hidentity
  obtain ⟨header, hheader, hid⟩ := Option.map_eq_some_iff.mp hidentity
  obtain ⟨-, hextract⟩ := Metadata.extract_id hagain hstream hheader
  -- and the hashes of it
  obtain ⟨entries, hentries, -⟩ := Result.bind_eq_ok.mp hguid
  obtain ⟨entries', hentries', hmoved⟩ :=
    hs.debugEntries haddress hcontained hapart.directory hentries
  obtain rfl := hs.eq_newFile haddress hcontained hafter
  refine ⟨pdb, again, stream, entries', hsome, hagain, hstream, ?_, hentries', fun e' he' hkind => ?_⟩
  · rw [Symbols.id, hbefore, idSize, hextract, (Prod.mk.inj hid).1]
  · obtain ⟨i, hi, rfl⟩ := List.mem_iff_getElem.mp he'
    obtain ⟨he, hsame⟩ := hmoved.get (hmoved.length_eq ▸ hi) hi
    exact hs.holds haddress hcontained hapart hentries he (hsame.kind.symm.trans hkind) hsame hupdate

/-- An image with a method A::M and room for a SHA-256 hash of its PDB. -/
def summed : Bytes := #[
  77, 90, 0, 0, 0, 0, 0, 0, 0, 0, 0, 0, 0, 0, 0, 0, 0, 0, 0, 0, 0, 0, 0, 0, 0, 0, 0, 0, 0, 0, 0,
  0, 0, 0, 0, 0, 0, 0, 0, 0, 0, 0, 0, 0, 0, 0, 0, 0, 0, 0, 0, 0, 0, 0, 0, 0, 0, 0, 0, 0, 64, 0, 0,
  0, 80, 69, 0, 0, 76, 1, 1, 0, 0, 0, 0, 0, 0, 0, 0, 0, 0, 0, 0, 0, 216, 0, 2, 33, 11, 1, 0, 0, 0,
  0, 0, 0, 0, 0, 0, 0, 0, 0, 0, 0, 0, 0, 0, 0, 0, 0, 0, 0, 0, 0, 0, 0, 0, 0, 0, 0, 0, 16, 0, 0, 1,
  0, 0, 0, 0, 0, 0, 0, 0, 0, 0, 0, 0, 0, 0, 0, 0, 0, 0, 0, 0, 32, 0, 0, 128, 1, 0, 0, 0, 0, 0, 0,
  0, 0, 0, 0, 0, 0, 0, 0, 0, 0, 0, 0, 0, 0, 0, 0, 0, 0, 0, 0, 0, 0, 0, 0, 15, 0, 0, 0, 0, 0, 0, 0,
  0, 0, 0, 0, 0, 0, 0, 0, 0, 0, 0, 0, 0, 0, 0, 0, 0, 0, 0, 0, 0, 0, 0, 0, 0, 0, 0, 0, 0, 0, 0, 0,
  0, 0, 0, 0, 0, 0, 0, 0, 0, 0, 0, 0, 36, 17, 0, 0, 28, 0, 0, 0, 0, 0, 0, 0, 0, 0, 0, 0, 0, 0, 0,
  0, 0, 0, 0, 0, 0, 0, 0, 0, 0, 0, 0, 0, 0, 0, 0, 0, 0, 0, 0, 0, 0, 0, 0, 0, 0, 0, 0, 0, 0, 0, 0,
  0, 0, 0, 0, 0, 0, 0, 0, 0, 0, 0, 0, 0, 0, 16, 0, 0, 72, 0, 0, 0, 46, 116, 101, 120, 116, 0, 0,
  0, 103, 1, 0, 0, 0, 16, 0, 0, 103, 1, 0, 0, 128, 1, 0, 0, 0, 0, 0, 0, 0, 0, 0, 0, 0, 0, 0, 0,
  32, 0, 0, 96, 0, 0, 0, 0, 0, 0, 0, 0, 0, 0, 0, 0, 0, 0, 0, 0, 0, 0, 0, 0, 0, 0, 0, 0, 0, 0, 0,
  0, 0, 0, 0, 0, 0, 0, 0, 0, 0, 0, 0, 0, 72, 0, 0, 0, 2, 0, 5, 0, 72, 16, 0, 0, 212, 0, 0, 0, 1,
  0, 0, 0, 0, 0, 0, 0, 0, 0, 0, 0, 0, 0, 0, 0, 0, 0, 0, 0, 0, 0, 0, 0, 0, 0, 0, 0, 0, 0, 0, 0, 0,
  0, 0, 0, 0, 0, 0, 0, 0, 0, 0, 0, 0, 0, 0, 0, 0, 0, 0, 0, 0, 0, 0, 0, 66, 83, 74, 66, 1, 0, 1, 0,
  0, 0, 0, 0, 4, 0, 0, 0, 118, 52, 0, 0, 0, 0, 3, 0, 72, 0, 0, 0, 116, 0, 0, 0, 35, 126, 0, 0,
  188, 0, 0, 0, 16, 0, 0, 0, 35, 83, 116, 114, 105, 110, 103, 115, 0, 0, 0, 0, 204, 0, 0, 0, 8, 0,
  0, 0, 35, 66, 108, 111, 98, 0, 0, 0, 0, 0, 0, 0, 2, 0, 0, 1, 69, 0, 0, 0, 1, 0, 0, 0, 0, 0, 0,
  0, 0, 0, 0, 0, 1, 0, 0, 0, 2, 0, 0, 0, 1, 0, 0, 0, 1, 0, 0, 0, 0, 0, 0, 0, 0, 0, 0, 0, 0, 0, 0,
  0, 0, 0, 1, 0, 0, 0, 0, 0, 1, 0, 1, 0, 0, 0, 0, 0, 10, 0, 0, 0, 0, 0, 1, 0, 1, 0, 28, 17, 0, 0,
  0, 0, 22, 0, 12, 0, 1, 0, 1, 0, 4, 128, 0, 0, 1, 0, 0, 0, 0, 0, 0, 0, 0, 0, 0, 0, 0, 0, 10, 0,
  0, 0, 0, 0, 0, 60, 77, 111, 100, 117, 108, 101, 62, 0, 65, 0, 77, 0, 0, 0, 0, 3, 0, 0, 1, 0, 0,
  0, 26, 40, 1, 0, 0, 6, 42, 0, 0, 0, 0, 0, 0, 0, 0, 0, 0, 0, 0, 0, 19, 0, 0, 0, 39, 0, 0, 0, 64,
  17, 0, 0, 192, 2, 0, 0, 83, 72, 65, 50, 53, 54, 0, 0, 0, 0, 0, 0, 0, 0, 0, 0, 0, 0, 0, 0, 0, 0,
  0, 0, 0, 0, 0, 0, 0, 0, 0, 0, 0, 0, 0, 0, 0, 0, 0]

lemma begins_summed : Begins (prepared summed linkedPdb) := by
  simp only [Begins, prepared, Image.readByTails.2, Image.attachByTails.2, Stages.beginByLists.2,
    Metadata.encodePdb, Metadata.encodeByLists.2]
  decide +kernel

/-- The summed image is written with an initializer, a signature and the hash of its PDB. -/
theorem holds_serialize_summed : ∃ (image : Image) (layout : LayoutPlan) (symbols : Symbols)
    (out : Output) (after : PeFile), image.Prepared summed ∧
    PeHeaders.fixedSize image.file.optional.isPlus +
      8 * image.file.optional.directories.length ≤ image.file.headers.optionalSize ∧
    slot image.file ≤ image.file.headersSize ∧ image.file.SectionsFit ∧
    image.file.sections.length + 1 < 2 ^ 16 ∧ LayoutPlan.ofFile image.file = .ok layout ∧
    image.Contained layout ∧ image.ChecksumsApart layout ∧ image.symbols = some symbols ∧
    symbols.metadata.root.versionBytes.size % 4 = 0 ∧ symbols.metadata.slots.length < 2 ^ 16 ∧
    image.serialize (some mersennePair) = .ok out ∧ out.image.size < 2 ^ 32 ∧
    (∀ pdb, out.symbols = some pdb → pdb.size < 2 ^ 32) ∧ PeFile.read out.image = .ok after ∧
    (∃ entries, image.file.debugEntries = .ok entries ∧
      entries.any (·.kind == DebugEntry.pdbChecksum) = true) ∧
    ∃ pdb again stream entries, out.symbols = some pdb ∧ Metadata.read pdb = .ok again ∧
      again.root.streams.find? (·.name == "#Pdb") = some stream ∧
      pdb.extract stream.offset.toNat (stream.offset.toNat + idSize) = symbols.id ∧
      after.debugEntries = .ok entries ∧ ∀ e ∈ entries, e.kind = DebugEntry.pdbChecksum →
        PdbChecksum.Holds after e (pdb.overlay stream.offset.toNat (zeros idSize)) := by
  obtain ⟨image, s, symbols, hprepared, hs, hplain, hversion, hslots, haddress, -, hsymbols,
    hversion', hslots', hpdb⟩ := exists_follow_prepared begins_summed
  have hserialize := serialize_eq_ok.mpr ⟨s, hs, rfl⟩
  have hraw := haddress.le_rawSize
  have hlarge := haddress.size
  have hsize : s.image.size < 2 ^ 32 := by
    rw [hs.size hprepared.parsed.file]
    exact hlarge
  obtain ⟨metadata, hread, hroot⟩ := hs.read_back hprepared hversion hslots (by omega)
  have hafter := hs.read_image hplain.found haddress hplain.contained hread hroot
  have hentries : ∃ entries, image.file.debugEntries = .ok entries ∧
      entries.any (·.kind == DebugEntry.pdbChecksum) = true := by
    obtain ⟨file, hfile, hchecks⟩ := Result.exists_of_holds (x := PeFile.read summed)
      (p := fun file => Result.holds file.debugEntries fun entries =>
        entries.any (·.kind == DebugEntry.pdbChecksum)) (by decide +kernel)
    obtain rfl := Except.ok.inj (hprepared.parsed.file.symm.trans hfile)
    exact Result.exists_of_holds hchecks
  exact ⟨image, s.layout, symbols, _, _, hprepared, hplain.headers.directories,
    hplain.headers.table, hplain.sections, hplain.count, hs.layout, hplain.contained,
    hplain.checksumsApart, hsymbols, hversion', hslots', hserialize, hsize, hpdb, hafter, hentries,
    holds_serialize hprepared hplain.headers.directories hplain.headers.table hplain.sections
      hplain.count hs.layout hplain.contained hplain.checksumsApart hsymbols hversion' hslots'
      hserialize hsize hpdb hafter⟩

/-- An image whose section table runs on behind the size of the headers that it tells: a part of the
file pointer of the section with the debug directory lies there. -/
def severed : Bytes := #[
  77, 90, 0, 0, 0, 0, 0, 0, 0, 0, 0, 0, 0, 0, 19, 0, 0, 0, 39, 0, 0, 0, 0, 0, 0, 0, 166, 2, 0, 0,
  0, 0, 0, 0, 0, 0, 0, 0, 0, 0, 0, 0, 0, 0, 0, 0, 0, 0, 0, 0, 0, 0, 0, 0, 0, 0, 0, 0, 0, 0, 64, 0,
  0, 0, 80, 69, 0, 0, 76, 1, 2, 0, 0, 0, 0, 0, 0, 0, 0, 0, 0, 0, 0, 0, 216, 0, 2, 33, 11, 1, 0, 0,
  0, 0, 0, 0, 0, 0, 0, 0, 0, 0, 0, 0, 0, 0, 0, 0, 0, 0, 0, 0, 0, 0, 0, 0, 0, 0, 0, 0, 0, 16, 0, 0,
  1, 0, 0, 0, 0, 0, 0, 0, 0, 0, 0, 0, 0, 0, 0, 0, 0, 0, 0, 0, 0, 48, 0, 0, 109, 1, 0, 0, 0, 0, 0,
  0, 0, 0, 0, 0, 0, 0, 0, 0, 0, 0, 0, 0, 0, 0, 0, 0, 0, 0, 0, 0, 0, 0, 0, 0, 15, 0, 0, 0, 0, 0, 0,
  0, 0, 0, 0, 0, 0, 0, 0, 0, 0, 0, 0, 0, 0, 0, 0, 0, 0, 0, 0, 0, 0, 0, 0, 0, 0, 0, 0, 0, 0, 0, 0,
  0, 0, 0, 0, 0, 0, 0, 0, 0, 0, 0, 0, 0, 0, 32, 0, 0, 28, 0, 0, 0, 0, 0, 0, 0, 0, 0, 0, 0, 0, 0,
  0, 0, 0, 0, 0, 0, 0, 0, 0, 0, 0, 0, 0, 0, 0, 0, 0, 0, 0, 0, 0, 0, 0, 0, 0, 0, 0, 0, 0, 0, 0, 0,
  0, 0, 0, 0, 0, 0, 0, 0, 0, 0, 0, 0, 0, 0, 0, 16, 0, 0, 72, 0, 0, 0, 46, 116, 101, 120, 116, 0,
  0, 0, 18, 1, 0, 0, 0, 16, 0, 0, 18, 1, 0, 0, 128, 1, 0, 0, 0, 0, 0, 0, 0, 0, 0, 0, 0, 0, 0, 0,
  32, 0, 0, 96, 46, 102, 97, 114, 0, 0, 0, 0, 28, 0, 0, 0, 0, 32, 0, 0, 28, 0, 0, 0, 2, 3, 0, 0,
  0, 0, 0, 0, 0, 0, 0, 0, 0, 0, 0, 0, 32, 0, 0, 96, 72, 0, 0, 0, 2, 0, 5, 0, 72, 16, 0, 0, 124, 0,
  0, 0, 1, 0, 0, 0, 0, 0, 0, 0, 0, 0, 0, 0, 0, 0, 0, 0, 0, 0, 0, 0, 0, 0, 0, 0, 0, 0, 0, 0, 0, 0,
  0, 0, 0, 0, 0, 0, 0, 0, 0, 0, 0, 0, 0, 0, 0, 0, 0, 0, 0, 0, 0, 0, 0, 0, 0, 0, 66, 83, 74, 66, 1,
  0, 1, 0, 0, 0, 0, 0, 4, 0, 0, 0, 118, 52, 0, 0, 0, 0, 2, 0, 56, 0, 0, 0, 56, 0, 0, 0, 35, 126,
  0, 0, 112, 0, 0, 0, 12, 0, 0, 0, 35, 83, 116, 114, 105, 110, 103, 115, 0, 0, 0, 0, 0, 0, 0, 0,
  2, 0, 0, 1, 5, 0, 0, 0, 0, 0, 0, 0, 0, 0, 0, 0, 0, 0, 0, 0, 1, 0, 0, 0, 1, 0, 0, 0, 0, 0, 0, 0,
  0, 0, 0, 0, 0, 0, 0, 0, 0, 0, 1, 0, 0, 0, 0, 0, 1, 0, 1, 0, 0, 60, 77, 111, 100, 117, 108, 101,
  62, 0, 0, 0, 83, 72, 65, 50, 53, 54, 0, 0, 0, 0, 0, 0, 0, 0, 0, 0, 0, 0, 0, 0, 0, 0, 0, 0, 0, 0,
  0, 0, 0, 0, 0, 0, 0, 0, 0, 0, 0, 0, 0, 83, 72, 65, 50, 53, 54, 0, 0, 0, 0, 0, 0, 0, 0, 0, 0, 0,
  0, 0, 0, 0, 0, 0, 0, 0, 0, 0, 0, 0, 0, 0, 0, 0, 0, 0, 0, 0, 0, 0, 0, 0, 0, 0, 0, 0, 0, 0, 0, 0,
  0, 0, 0, 0, 0, 0, 0, 0, 0, 0, 0, 0, 0, 0, 0, 0, 0, 0, 0, 0, 0, 0, 0, 0, 0, 0, 0, 0, 0, 0, 0, 0,
  0, 0, 0, 0, 0, 0, 0, 0, 0, 0, 0, 0, 0, 0, 0, 0, 0, 0, 0, 0, 0, 0, 0, 0, 0, 0, 0, 0, 0, 0, 0, 0,
  0, 0, 0, 0, 0, 0, 0, 0, 0, 0, 0, 0, 0, 0, 0, 0, 0, 0, 0, 0, 0, 0, 0, 0, 0, 0, 0, 0, 0, 0, 0, 0,
  0, 0, 0, 0, 0, 0, 0, 0, 0, 0, 0, 0, 0, 0, 0, 0, 0, 0, 19, 0, 0, 0, 39, 0, 0, 0, 0, 0, 0, 0, 68,
  2, 0, 0]

def severedPdb : Bytes := #[
  66, 83, 74, 66, 1, 0, 1, 0, 0, 0, 0, 0, 4, 0, 0, 0, 118, 52, 0, 0, 0, 0, 2, 0, 52, 0, 0, 0, 32,
  0, 0, 0, 35, 80, 100, 98, 0, 0, 0, 0, 84, 0, 0, 0, 36, 0, 0, 0, 35, 126, 0, 0, 1, 2, 3, 4, 5, 6,
  7, 8, 9, 10, 11, 12, 13, 14, 15, 16, 0, 0, 0, 0, 0, 0, 0, 0, 0, 0, 0, 0, 0, 0, 0, 0, 0, 0, 0, 0,
  2, 0, 0, 1, 0, 0, 0, 0, 0, 0, 1, 0, 0, 0, 0, 0, 0, 0, 0, 0, 1, 0, 0, 0, 0, 0, 0, 0, 0, 0, 0, 0]

/-- The last stages as they are computed, without a key. -/
def Stages.rest (image : Image) (s : Stages) : Result Stages := do
  let built ← s.layout.build image.file s.added
  let (_, patched) ← (patch image (MethodPlan.ofImage image) s.layout s.cli).run built
  let (symbols, hashed) ← writeSymbols? image.file s.layout s.arranged.2 s.encoded.2.tables patched
  let (_, last) ← Checksum.update hashed image.file.headers.checksumOffset
  .ok { s with built, patched, symbols, hashed, signed := hashed, image := last }

lemma Stages.Start.follow_of_rest {t : Stages} (h : s.Start image none)
    (hrest : Stages.rest image s = .ok t) : t.Follow image none ∧ t.layout = s.layout := by
  unfold Stages.rest at hrest
  simp only [Result.bind_eq_ok] at hrest
  obtain ⟨built, hbuilt, ⟨_, patched⟩, hpatched, ⟨symbols, hashed⟩, hsymbols, ⟨checksum, last⟩, hlast,
    hrest⟩ := hrest
  cases hrest
  exact ⟨⟨⟨{ h with }, hbuilt, Edit.run_eq_ok.mp hpatched, hsymbols⟩, rfl, checksum, hlast⟩, rfl⟩

/-- Data that ends in another hash than that of the PDB with its id cleared. -/
def IsStale (payload pdb : Bytes) (stream : StreamHeader) : Prop :=
  payload.findIdx? (· == 0) = some 6 ∧ payload.size = 39 ∧
    Utf8.decodeLossy (payload.extract 0 6) = "SHA256" ∧
      payload.extract 7 39 ≠ Hash.Sha256.sha256 (pdb.overlay stream.offset.toNat (zeros idSize))

lemma IsStale.not_holds {file : PeFile} {payload : Bytes} {stream : StreamHeader}
    (h : IsStale payload pdb stream) (hpayload : e.payload file = .ok payload) :
    ¬ PdbChecksum.Holds file e (pdb.overlay stream.offset.toNat (zeros idSize)) := by
  obtain ⟨hname, hsize, halgorithm, hdiffers⟩ := h
  rintro ⟨payload', hpayload', hholds⟩
  obtain rfl := Except.ok.inj (hpayload.symm.trans hpayload')
  have := hholds 6 Hash.Sha256.sha256 hname (by rw [halgorithm]; rfl) (by rw [halgorithm, hsize]; rfl)
  rw [hsize] at this
  exact hdiffers this

/-- What the output's debug directory leads to: the name of an algorithm and what the hash would be
written over. -/
def severedRecord : Bytes := #[
  83, 72, 65, 50, 53, 54, 0, 0, 0, 0, 0, 0, 0, 0, 0, 0, 0, 0, 0, 0, 0, 0, 0, 0, 0, 0, 0, 0, 0, 0, 0,
  0, 0, 0, 0, 0, 0, 0, 0]

/-- The PDB as it is written with the severed image. -/
def severedSymbols : Bytes := #[
  66, 83, 74, 66, 1, 0, 1, 0, 0, 0, 0, 0, 4, 0, 0, 0, 118, 52, 0, 0, 0, 0, 4, 0, 88, 0, 0, 0, 32,
  0, 0, 0, 35, 80, 100, 98, 0, 0, 0, 0, 120, 0, 0, 0, 36, 0, 0, 0, 35, 126, 0, 0, 156, 0, 0, 0, 4,
  0, 0, 0, 35, 83, 116, 114, 105, 110, 103, 115, 0, 0, 0, 0, 160, 0, 0, 0, 4, 0, 0, 0, 35, 66, 108,
  111, 98, 0, 0, 0, 1, 2, 3, 4, 5, 6, 7, 8, 9, 10, 11, 12, 13, 14, 15, 16, 0, 0, 0, 0, 0, 0, 0, 0,
  0, 0, 0, 0, 0, 0, 0, 0, 0, 0, 0, 0, 2, 0, 0, 1, 0, 0, 0, 0, 0, 0, 1, 0, 0, 0, 0, 0, 0, 0, 0, 0, 1,
  0, 0, 0, 0, 0, 0, 0, 0, 0, 0, 0, 0, 0, 0, 0, 0, 0, 0, 0]

lemma writes_severed : Result.holds (do
      let image ← Image.read 0 severed
      image.attach "a.pdb" severedPdb) (fun image =>
    Result.holds (Stages.begin image none) fun s =>
      decide (image.ChecksumsApart s.layout ∧ image.file.SectionsFit) &&
      Result.holds (Stages.rest image s) fun t =>
      Result.holds (PeFile.read t.image) fun after =>
      Result.holds after.debugEntries fun entries =>
      t.symbols.any fun pdb => image.symbols.any fun symbols =>
      Result.holds (Root.read pdb) fun root =>
      (root.streams.find? (·.name == "#Pdb")).any fun stream =>
        decide (pdb.extract stream.offset.toNat (stream.offset.toNat + idSize) = symbols.id) &&
        entries.any fun e => decide (e.kind = DebugEntry.pdbChecksum) &&
          Result.holds (e.payload after) fun payload =>
            decide (payload = severedRecord ∧ pdb = severedSymbols ∧ stream.offset = 88)) = true := by
  simp only [Image.readByTails.2, Image.attachByTails.2, PeFile.readByTails.2,
    Stages.beginByLists.2, Stages.rest, buildByTails.2, patch, Edit.put_eq_take, writeSymbols?,
    writeSymbols, Metadata.encodePdb, Metadata.encodeByLists.2, updateByTails.2, Checksum.update,
    Bytes.put, overlay_eq_take, DebugEntry.payload, slice_eq_take, extract_eq_take,
    PeFile.debugEntries, DebugEntry.readAt]
  rw [natAt_eq_natByTails]
  decide +kernel

lemma isStale_severed {stream : StreamHeader} (h : stream.offset = 88) :
    IsStale severedRecord severedSymbols stream := by
  rw [IsStale, h]
  decide +kernel

/-- The hash of the PDB is renewed where the input's debug directory tells, but the output's is found
elsewhere: what is behind the headers has moved away from the section table. -/
theorem not_holds_serialize_severed : ∃ (image : Image) (layout : LayoutPlan) (symbols : Symbols)
    (out : Output) (after : PeFile) (pdb : Bytes) (root : Root) (stream : StreamHeader)
    (entries : List DebugEntry) (e : DebugEntry), image.Prepared severed ∧ image.file.SectionsFit ∧
    LayoutPlan.ofFile image.file = .ok layout ∧ image.ChecksumsApart layout ∧
    image.symbols = some symbols ∧ image.serialize none = .ok out ∧
    PeFile.read out.image = .ok after ∧ out.symbols = some pdb ∧ Root.read pdb = .ok root ∧
    root.streams.find? (·.name == "#Pdb") = some stream ∧
    pdb.extract stream.offset.toNat (stream.offset.toNat + idSize) = symbols.id ∧
    after.debugEntries = .ok entries ∧ e ∈ entries ∧ e.kind = DebugEntry.pdbChecksum ∧
    ¬ PdbChecksum.Holds after e (pdb.overlay stream.offset.toNat (zeros idSize)) := by
  obtain ⟨image, hattached, hchecks⟩ := Result.exists_of_holds writes_severed
  obtain ⟨s, hbegin, hchecks⟩ := Result.exists_of_holds hchecks
  obtain ⟨hapart, hchecks⟩ := Bool.and_eq_true_iff.mp hchecks
  obtain ⟨hapart, hsections⟩ := of_decide_eq_true hapart
  obtain ⟨t, hrest, hchecks⟩ := Result.exists_of_holds hchecks
  obtain ⟨after, hafter, hchecks⟩ := Result.exists_of_holds hchecks
  obtain ⟨entries, hentries, hchecks⟩ := Result.exists_of_holds hchecks
  obtain ⟨pdb, hpdb, hchecks⟩ := (Option.any_eq_true ..).mp hchecks
  obtain ⟨symbols, hsymbols, hchecks⟩ := (Option.any_eq_true ..).mp hchecks
  obtain ⟨root, hroot, hchecks⟩ := Result.exists_of_holds hchecks
  obtain ⟨stream, hstream, hchecks⟩ := (Option.any_eq_true ..).mp hchecks
  obtain ⟨hid, hchecks⟩ := Bool.and_eq_true_iff.mp hchecks
  obtain ⟨e, he, hchecks⟩ := List.any_eq_true.mp hchecks
  obtain ⟨hkind, hchecks⟩ := Bool.and_eq_true_iff.mp hchecks
  obtain ⟨payload, hpayload, hwritten⟩ := Result.exists_of_holds hchecks
  obtain ⟨hrecord, hsymbols', hoffset⟩ := of_decide_eq_true hwritten
  have hstale : IsStale payload pdb stream := by
    rw [hrecord, hsymbols']
    exact isStale_severed hoffset
  have hprepared : image.Prepared severed := by
    obtain ⟨origin, hread, hattach⟩ := Result.bind_eq_ok.mp hattached
    exact (Image.Prepared.read hread).attach hattach
  obtain ⟨ht, hlayout⟩ := (Stages.start_of_begin hbegin).follow_of_rest hrest
  exact ⟨image, s.layout, symbols, _, after, pdb, root, stream, entries, e, hprepared, hsections,
    (Stages.start_of_begin hbegin).layout, hapart, hsymbols, serialize_eq_ok.mpr ⟨t, ht, rfl⟩, hafter,
    hpdb, hroot, hstream, of_decide_eq_true hid, hentries, he, of_decide_eq_true hkind,
    hstale.not_holds hpayload⟩

end Output

end CliImage
