import CliImage.Output
import CliImage.Proofs.Edit

/-! What an output goes through. -/

namespace CliImage.Output

variable {image : Image} {key : Option KeyPair} {out : Output}

/-- What each stage has made. -/
structure Stages where
  layout : LayoutPlan
  rowed : AddedState
  arranged : Metadata × Option Metadata
  stored : Metadata × CliHeader
  encoded : Bytes × Metadata
  cli : CliHeader
  added : MetaSection
  built : Bytes
  patched : Bytes
  symbols : Option Bytes
  hashed : Bytes
  signed : Bytes
  image : Bytes

/-- The stages before the input's bytes are laid out. -/
structure Stages.Start (s : Stages) (image : Image) (key : Option KeyPair) : Prop where
  layout : LayoutPlan.ofFile image.file = .ok s.layout
  rowed : ((MethodPlan.ofImage image).added.map Prod.snd).foldlM
    (addMethod image (MethodPlan.ofImage image)) ⟨⟨s.layout.sectionRva, #[]⟩, image.metadata, []⟩ =
      .ok s.rowed
  arranged : arrange (MethodPlan.ofImage image) s.rowed.rows s.rowed.metadata
    (image.symbols.map Symbols.metadata) = .ok s.arranged
  stored : storeKey? s.arranged.1 image.cli key = .ok s.stored
  encoded : s.stored.1.encode = .ok s.encoded
  cli : ∃ cli, pushMetadata s.stored.2 s.encoded.1 key s.rowed.added = .ok cli s.added ∧
    s.cli = renumberEntryPoint (MethodPlan.ofImage image) cli

/-- The stages before the output is signed. -/
structure Stages.Unsigned (s : Stages) (image : Image) (key : Option KeyPair) : Prop
    extends s.Start image key where
  built : s.layout.build image.file s.added = .ok s.built
  patched : patch image (MethodPlan.ofImage image) s.layout s.cli s.built = .ok () s.patched
  symbols : writeSymbols? image.file s.layout s.arranged.2 s.encoded.2.tables s.patched =
    .ok (s.symbols, s.hashed)

/-- The stages of an image follow each other. -/
structure Stages.Follow (s : Stages) (image : Image) (key : Option KeyPair) : Prop
    extends s.Unsigned image key where
  signed : signOutput s.layout s.cli key s.hashed = .ok s.signed
  image : ∃ checksum,
    Checksum.update s.signed image.file.headers.checksumOffset = .ok (checksum, s.image)

theorem serialize_eq_ok : image.serialize key = .ok out ↔
    ∃ s : Stages, s.Follow image key ∧ out = ⟨s.image, s.symbols⟩ := by
  unfold Image.serialize
  simp only [Result.bind_eq_ok]
  constructor
  · rintro ⟨layout, hlayout, rowed, hrowed, arranged, harranged, stored, hstored, encoded, hencoded,
      h⟩
    split at h
    · cases h
    rename_i cli added hpushed
    simp only [Result.bind_eq_ok] at h
    obtain ⟨built, hbuilt, ⟨_, patched⟩, hpatched, ⟨symbols, hashed⟩, hsymbols, signed, hsigned,
      ⟨checksum, last⟩, hlast, h⟩ := h
    cases h
    exact ⟨⟨layout, rowed, arranged, stored, encoded, _, added, built, patched, symbols, hashed,
      signed, last⟩, ⟨⟨⟨hlayout, hrowed, harranged, hstored, hencoded, ⟨cli, hpushed, rfl⟩⟩, hbuilt,
        Edit.run_eq_ok.mp hpatched, hsymbols⟩, hsigned, checksum, hlast⟩, rfl⟩
  · rintro ⟨s, h, rfl⟩
    obtain ⟨cli, hpushed, hcli⟩ := h.cli
    obtain ⟨checksum, hlast⟩ := h.image
    have hpatched := h.patched
    have hsigned := h.signed
    rw [hcli] at hpatched hsigned
    refine ⟨s.layout, h.layout, s.rowed, h.rowed, s.arranged, h.arranged, s.stored, h.stored,
      s.encoded, h.encoded, ?_⟩
    rw [hpushed]
    simp only [Result.bind_eq_ok]
    exact ⟨s.built, h.built, ((), s.patched), Edit.run_eq_ok.mpr hpatched, (s.symbols, s.hashed),
      h.symbols, s.signed, hsigned, (checksum, s.image), hlast, rfl⟩

end CliImage.Output
