import CliImage.Proofs.Layout.MetaSection
import CliImage.Proofs.Output.Stages

/-! What an output pushes onto the added section: bodies, the metadata and room for a signature. -/

namespace CliImage

namespace MetaSection

variable {α β : Type} {x : MetaSection.Edit α} {f : α → MetaSection.Edit β} {b : β}
  {added after : MetaSection}

lemma bind_eq_ok : (x >>= f) added = .ok b after ↔
    ∃ a between, x added = .ok a between ∧ f a between = .ok b after := by
  rw [show (x >>= f) added = EStateM.bind x f added from rfl, EStateM.bind]
  cases x added <;> simp

lemma pure_eq_ok {a : α} {b : α} : (pure a : MetaSection.Edit α) added = .ok b after ↔
    a = b ∧ added = after := by
  rw [show (pure a : MetaSection.Edit α) added = .ok a added from rfl]
  simp

end MetaSection

namespace Metadata

lemma le_size_foldl {α : Type} {f : Bytes → α → Bytes} (hf : ∀ done a, done.size ≤ (f done a).size)
    (items : List α) (done : Bytes) : done.size ≤ (items.foldl f done).size := by
  induction items generalizing done with
  | nil => exact le_rfl
  | cons a items ih => exact (hf done a).trans (ih _)

/-- The root alone takes some room. -/
lemma size_of_encode {m : Metadata} {encoded : Bytes × Metadata} (h : m.encode = .ok encoded) :
    0 < encoded.1.size := by
  obtain ⟨tables, -, h⟩ := Result.bind_eq_ok.mp h
  cases h
  refine Nat.lt_of_lt_of_le ?_ (le_size_foldl (fun done (a : String × Bytes) => ?_) _ _)
  · refine Nat.lt_of_lt_of_le ?_ (le_size_foldl (fun done header => ?_) _ _)
    · simp only [Array.size_append, Bytes.size_ofUInt32]
      omega
    · simp only [StreamHeader.appendTo, Bytes.padTo, Array.size_append]
      omega
  · rw [Array.size_append]
    exact Nat.le_add_right ..

end Metadata

namespace Output

open MetaSection (Pushed)

variable {image : Image} {plan : MethodPlan} {key : Option KeyPair} {rva address : UInt32}
  {added after : MetaSection} {pushed : List (UInt32 × Bytes)} {bytes : Bytes} {cli cli' : CliHeader}

lemma pushed_of_addBody {m : Method} (h : Pushed rva added pushed)
    (hadd : addBody plan added m = .ok (address, after)) : ∃ pushed, Pushed rva after pushed := by
  unfold addBody at hadd
  split at hadd
  · cases hadd
    exact ⟨pushed, h⟩
  · obtain ⟨body, -, hadd⟩ := Result.bind_eq_ok.mp hadd
    split at hadd
    · rename_i hpush
      cases hadd
      exact ⟨_, h.ok hpush⟩
    · cases hadd

/-- Only bodies have been pushed once all methods are added. -/
lemma pushed_of_addMethods {ids : List Nat} {before state : AddedState}
    (h : Pushed rva before.added pushed)
    (hadd : ids.foldlM (addMethod image plan) before = .ok state) :
    ∃ pushed, Pushed rva state.added pushed := by
  induction ids generalizing before pushed with
  | nil =>
    cases hadd
    exact ⟨pushed, h⟩
  | cons id ids ih =>
    obtain ⟨next, hnext, hrest⟩ := Result.foldlM_cons_eq_ok.mp hadd
    unfold addMethod at hnext
    split at hnext
    · split at hnext
      · obtain ⟨⟨address, after⟩, hbody, hnext⟩ := Result.bind_eq_ok.mp hnext
        obtain ⟨⟨blobs, blob⟩, -, hnext⟩ := Result.bind_eq_ok.mp hnext
        cases hnext
        obtain ⟨pushed', h'⟩ := pushed_of_addBody h hbody
        exact ih h' hrest
      · cases hnext
    · cases hnext

/-- The CLI header names the metadata and the room for a signature as they have been pushed. -/
structure Named (cli : CliHeader) (bytes : Bytes) (key : Option KeyPair)
    (pushed : List (UInt32 × Bytes)) : Prop where
  metadata : ∃ rva, (rva, bytes) ∈ pushed ∧ cli.metadata = ⟨rva, UInt32.ofNat bytes.size⟩
  strongName : ∀ pair, key = some pair → ∃ rva, (rva, Bytes.zeros pair.signatureSize) ∈ pushed ∧
    cli.strongName = ⟨rva, UInt32.ofNat pair.signatureSize⟩ ∧
      cli.metadata.rva.toNat + bytes.size ≤ rva.toNat

lemma pushMetadata_eq_ok (h : Pushed rva added pushed)
    (hpush : pushMetadata cli bytes key added = .ok cli' after) :
    cli'.size = cli.size ∧ ∃ pushed, Pushed rva after pushed ∧ Named cli' bytes key pushed := by
  obtain ⟨address, between, hmetadata, hpush⟩ := MetaSection.bind_eq_ok.mp hpush
  have hbetween := h.ok hmetadata
  have hmem : (address, bytes) ∈ pushed ++ [(address, bytes)] := by simp
  cases key with
  | none =>
    obtain ⟨rfl, rfl⟩ := MetaSection.pure_eq_ok.mp hpush
    exact ⟨rfl, _, hbetween, ⟨address, hmem, rfl⟩, fun pair hpair => by cases hpair⟩
  | some pair =>
    obtain ⟨room, last, hreserve, hpush⟩ := MetaSection.bind_eq_ok.mp hpush
    obtain ⟨rfl, rfl⟩ := MetaSection.pure_eq_ok.mp hpush
    refine ⟨rfl, _, hbetween.ok hreserve, ⟨address, List.mem_append_left _ hmem, rfl⟩,
      fun pair' hpair => ?_⟩
    cases hpair
    refine ⟨room, by simp, rfl, ?_⟩
    -- the room is behind all that has been pushed before
    obtain ⟨haddress, rfl⟩ := MetaSection.push_eq_ok.mp hmetadata
    obtain ⟨hroom, -⟩ := MetaSection.push_eq_ok.mp hreserve
    rw [hroom, haddress]
    simp only [Bytes.padTo, Array.size_append]
    omega

lemma storeKey?_eq_ok {metadata : Metadata} {stored : Metadata × CliHeader}
    (h : storeKey? metadata cli key = .ok stored) : stored.2.size = cli.size := by
  unfold storeKey? at h
  split at h
  · obtain ⟨_, -, h⟩ := Result.bind_eq_ok.mp h
    cases h
    rfl
  · cases h
    rfl

lemma renumberEntryPoint_spans (plan : MethodPlan) (cli : CliHeader) :
    (renumberEntryPoint plan cli).size = cli.size ∧
      (renumberEntryPoint plan cli).metadata = cli.metadata ∧
      (renumberEntryPoint plan cli).strongName = cli.strongName := by
  unfold renumberEntryPoint
  split
  · exact ⟨rfl, rfl, rfl⟩
  · exact ⟨rfl, rfl, rfl⟩

/-- Whatever an output adds has been pushed, and its CLI header says where. -/
theorem Stages.Start.exists_pushed {s : Stages} (h : s.Start image key) :
    s.cli.size = image.cli.size ∧ ∃ pushed, Pushed s.layout.sectionRva s.added pushed ∧
      Named s.cli s.encoded.1 key pushed := by
  obtain ⟨pushed, hbodies⟩ := pushed_of_addMethods Pushed.new h.rowed
  obtain ⟨cli, hpush, hcli⟩ := h.cli
  obtain ⟨hsize, pushed', hpushed, hnamed⟩ := pushMetadata_eq_ok hbodies hpush
  obtain ⟨hsize', hmetadata, hstrongName⟩ :=
    renumberEntryPoint_spans (MethodPlan.ofImage image) cli
  rw [hcli]
  refine ⟨hsize'.trans (hsize.trans (storeKey?_eq_ok h.stored)), pushed', hpushed, ?_, ?_⟩
  · rw [hmetadata]
    exact hnamed.metadata
  · rw [hstrongName, hmetadata]
    exact hnamed.strongName

/-- The metadata stands in the added section where the CLI header says, and the room for a signature
is behind it. -/
lemma Stages.Start.standsAt_metadata {s : Stages} (h : s.Start image key)
    (hsize : s.added.data.size < 2 ^ 32) :
    s.layout.sectionRva.toNat ≤ s.cli.metadata.rva.toNat ∧
      s.added.data.StandsAt (s.cli.metadata.rva.toNat - s.layout.sectionRva.toNat) s.encoded.1 ∧
      s.cli.metadata.size.toNat = s.encoded.1.size ∧
      (key.isSome → s.cli.metadata.rva.toNat + s.encoded.1.size ≤ s.cli.strongName.rva.toNat) := by
  obtain ⟨-, pushed, hpushed, hnamed⟩ := h.exists_pushed
  obtain ⟨rva, hmem, hmetadata⟩ := hnamed.metadata
  obtain ⟨hle, hstands⟩ := hpushed.standsAt hmem
  have hend := hstands.le_size
  dsimp only at hle hstands hend
  have hlength : (UInt32.ofNat s.encoded.1.size).toNat = s.encoded.1.size :=
    UInt32.toNat_ofNat_of_lt' (by rw [UInt32.size]; omega)
  refine ⟨by rwa [hmetadata], by rwa [hmetadata], by rwa [hmetadata], fun hkey => ?_⟩
  obtain ⟨pair, rfl⟩ := Option.isSome_iff_exists.mp hkey
  obtain ⟨room, -, hname, hbehind⟩ := hnamed.strongName pair rfl
  rwa [hname]

end Output

end CliImage
