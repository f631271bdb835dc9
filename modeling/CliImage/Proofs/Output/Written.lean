import CliImage.Proofs.Output.Accepted

/-! For an image at hand it can be computed where an output writes, and whether all of that is in
place. -/

namespace CliImage

open Bytes

namespace Bytes

variable {start len : Nat} {p : Nat → Nat → Prop} {runs : List (Nat × Nat)}

/-- Runs without a common place. -/
def Clear (run other : Nat × Nat) : Prop :=
  run.2 = 0 ∨ other.2 = 0 ∨ run.1 + run.2 ≤ other.1 ∨ other.1 + other.2 ≤ run.1

instance (run other : Nat × Nat) : Decidable (Clear run other) :=
  inferInstanceAs (Decidable (_ ∨ _ ∨ _ ∨ _))

lemma Clear.symm {run other : Nat × Nat} (h : Clear run other) : Clear other run := by
  unfold Clear at h ⊢
  omega

lemma clear_iff {run other : Nat × Nat} :
    Clear run other ↔ ∀ x, Within run.1 run.2 x → ¬ Within other.1 other.2 x := by
  constructor
  · rintro h x ⟨hle, hlt⟩ ⟨hle', hlt'⟩
    unfold Clear at h
    omega
  · intro h
    by_contra hclear
    unfold Clear at hclear
    have := h (max run.1 other.1)
    unfold Within at this
    omega

/-- A run is clear of others if it is clear of each of them in a list. -/
lemma not_covered_iff (hruns : ∀ start len, p start len ↔ (start, len) ∈ runs) :
    (∀ x, Within start len x → ¬ Covered p x) ↔ ∀ r ∈ runs, Clear (start, len) r := by
  constructor
  · intro h r hr
    exact clear_iff.mpr fun x hx hx' => h x hx ⟨r.1, r.2, (hruns _ _).mpr hr, hx'⟩
  · rintro h x hx ⟨start', len', hrun, hx'⟩
    exact clear_iff.mp (h _ ((hruns _ _).mp hrun)) x hx hx'

end Bytes

namespace Image

variable (image : Image) (layout : LayoutPlan) {start len : Nat}

/-- Where a method's tokens lie, counted from the start of its body. -/
def tokenPlaces (m : Method) : List Nat :=
  match m.body, image.file.offsetOf m.rva.toNat with
  | some body, .ok start =>
    m.tokens.map fun a => start + body.headerSize + (a.1.offset + a.1.size - 4)
  | _, _ => []

def operandRuns : List (Nat × Nat) :=
  ((image.methods.toList.filter fun m => !m.isAdded).flatMap image.tokenPlaces).map fun o => (o, 4)

def fixupRun? (table i : Nat) : Option (Nat × Nat) :=
  match RidMap.slotSize? (image.file.data.natAt (table + 8 * i + 6) 2),
    image.file.offsetOf (image.file.data.natAt (table + 8 * i) 4) with
  | some size, .ok start => some (start, image.file.data.natAt (table + 8 * i + 4) 2 * size)
  | _, _ => none

def fixupRuns : List (Nat × Nat) :=
  if image.cli.vtableFixups.rva = 0 ∨ image.cli.vtableFixups.size = 0 then []
  else
    match image.file.offsetOf image.cli.vtableFixups.rva.toNat with
    | .ok table => (List.range image.fixupCount).filterMap (image.fixupRun? table)
    | .error _ => []

def cliRuns : List (Nat × Nat) :=
  match image.file.offsetOf image.file.cli.rva.toNat with
  | .ok start => [(start, 72)]
  | .error _ => []

def hashRun? (e : DebugEntry) : Option (Nat × Nat) :=
  match e.payload image.file with
  | .ok payload => (payload.findIdx? (· == 0)).map fun name =>
    (e.dataPointer.toNat + name + 1, payload.size - name - 1)
  | .error _ => none

def hashRuns : List (Nat × Nat) :=
  match image.file.debugEntries with
  | .ok entries => (entries.filter fun e => e.kind == DebugEntry.pdbChecksum).filterMap image.hashRun?
  | .error _ => []

def debugPointerRuns : List (Nat × Nat) :=
  if layout.grows then
    match image.file.debugEntries with
    | .ok entries => entries.map fun e => (e.pointerOffset, 4)
    | .error _ => []
  else []

variable {image layout}

lemma mem_tokenPlaces {m : Method} {o : Nat} :
    o ∈ image.tokenPlaces m ↔ ∃ a ∈ m.tokens, image.OperandAt m a.1 o := by
  unfold tokenPlaces OperandAt
  split
  · rename_i body start hbody hstart
    simp only [List.mem_map, hbody, hstart, Option.some.injEq, Except.ok.injEq]
    constructor
    · rintro ⟨a, ha, rfl⟩
      exact ⟨a, ha, body, start, rfl, rfl, rfl⟩
    · rintro ⟨a, ha, _, _, rfl, rfl, rfl⟩
      exact ⟨a, ha, rfl⟩
  · rename_i hnone
    simp only [List.not_mem_nil, false_iff]
    rintro ⟨a, -, body, start, hbody, hstart, -⟩
    exact hnone body start hbody hstart

lemma operandRun_iff : image.OperandRun start len ↔ (start, len) ∈ image.operandRuns := by
  simp only [operandRuns, List.mem_map, List.mem_flatMap, List.mem_filter, Prod.mk.injEq,
    mem_tokenPlaces]
  constructor
  · rintro ⟨rfl, m, hm, hold, h⟩
    exact ⟨start, ⟨m, ⟨hm, by simpa using hold⟩, h⟩, rfl, rfl⟩
  · rintro ⟨o, ⟨m, ⟨hm, hold⟩, h⟩, rfl, rfl⟩
    exact ⟨rfl, m, hm, by simpa using hold, h⟩

lemma fixupRun?_eq_some {table i : Nat} :
    image.fixupRun? table i = some (start, len) ↔ image.FixupsAt table i start len := by
  unfold fixupRun? FixupsAt
  split
  · rename_i size start' hsize hstart
    simp only [hsize, hstart, Option.some.injEq, Except.ok.injEq, Prod.mk.injEq]
    constructor
    · rintro ⟨rfl, rfl⟩
      exact ⟨size, rfl, rfl, rfl⟩
    · rintro ⟨_, rfl, rfl, rfl⟩
      exact ⟨rfl, rfl⟩
  · rename_i hnone
    simp only [reduceCtorEq, false_iff]
    rintro ⟨size, hsize, hstart, -⟩
    exact hnone size start hsize hstart

lemma fixupRun_iff : image.FixupRun start len ↔ (start, len) ∈ image.fixupRuns := by
  unfold FixupRun FixupTableAt fixupRuns
  split
  · simp only [List.not_mem_nil, iff_false]
    rintro ⟨_, ⟨hsome, -⟩, -⟩
    exact hsome ‹_›
  · rename_i hsome
    split
    · rename_i table htable
      simp only [List.mem_filterMap, List.mem_range, fixupRun?_eq_some]
      constructor
      · rintro ⟨table', ⟨-, htable'⟩, h⟩
        rw [htable] at htable'
        cases htable'
        exact h
      · exact fun h => ⟨table, ⟨hsome, htable⟩, h⟩
    · rename_i herror
      simp only [List.not_mem_nil, iff_false]
      rintro ⟨_, ⟨-, htable⟩, -⟩
      rw [herror] at htable
      cases htable

lemma cliRun_iff : image.CliRun start len ↔ (start, len) ∈ image.cliRuns := by
  unfold CliRun cliRuns
  split
  · rename_i start' hstart
    simp only [hstart, List.mem_singleton, Prod.mk.injEq, Except.ok.injEq]
    exact ⟨fun ⟨hlen, hstart⟩ => ⟨hstart.symm, hlen⟩, fun ⟨hstart, hlen⟩ => ⟨hlen, hstart.symm⟩⟩
  · rename_i herror
    simp [herror]

lemma hashRun?_eq_some {e : DebugEntry} : image.hashRun? e = some (start, len) ↔
    ∃ payload name, e.payload image.file = .ok payload ∧ payload.findIdx? (· == 0) = some name ∧
      start = e.dataPointer.toNat + name + 1 ∧ len = payload.size - name - 1 := by
  unfold hashRun?
  split
  · rename_i payload hpayload
    simp only [Option.map_eq_some_iff, Prod.mk.injEq, hpayload, Except.ok.injEq]
    constructor
    · rintro ⟨name, hname, rfl, rfl⟩
      exact ⟨payload, name, rfl, hname, rfl, rfl⟩
    · rintro ⟨_, name, rfl, hname, rfl, rfl⟩
      exact ⟨name, hname, rfl, rfl⟩
  · rename_i herror
    simp [herror]

lemma hashAt_iff : image.HashAt start len ↔ (start, len) ∈ image.hashRuns := by
  unfold HashAt hashRuns
  split
  · rename_i entries hentries
    simp only [List.mem_filterMap, List.mem_filter, beq_iff_eq, hashRun?_eq_some]
    constructor
    · rintro ⟨entries', hentries', e, he, hkind, h⟩
      rw [hentries] at hentries'
      cases hentries'
      exact ⟨e, ⟨he, hkind⟩, h⟩
    · rintro ⟨e, ⟨he, hkind⟩, h⟩
      exact ⟨entries, hentries, e, he, hkind, h⟩
  · rename_i herror
    simp [herror]

/-- The places in data that is kept that an output may write over before hashes are renewed. -/
def patchedRuns (image : Image) : List (Nat × Nat) :=
  image.operandRuns ++ image.fixupRuns ++ image.cliRuns

/-- All places that an output may write over in data that is kept. -/
def writtenRuns (image : Image) : List (Nat × Nat) :=
  image.patchedRuns ++ image.hashRuns

lemma patchedRun_iff : image.PatchedRun start len ↔ (start, len) ∈ image.patchedRuns := by
  simp only [PatchedRun, patchedRuns, List.mem_append, ← operandRun_iff, ← fixupRun_iff,
    ← cliRun_iff, or_assoc]

theorem writtenRun_iff : image.WrittenRun start len ↔ (start, len) ∈ image.writtenRuns := by
  rw [writtenRun_iff_patched, writtenRuns, List.mem_append, patchedRun_iff, hashAt_iff]

lemma debugPointer_iff {x : Nat} : image.IsDebugPointer layout x ↔
    Covered (fun start len => (start, len) ∈ image.debugPointerRuns layout) x := by
  unfold IsDebugPointer debugPointerRuns Covered
  split
  · rename_i hgrows
    split
    · rename_i entries hentries
      simp only [hgrows, hentries, List.mem_map, Prod.mk.injEq, true_and, Except.ok.injEq]
      constructor
      · rintro ⟨_, rfl, e, he, hx⟩
        exact ⟨_, _, ⟨e, he, rfl, rfl⟩, hx⟩
      · rintro ⟨_, _, ⟨e, he, rfl, rfl⟩, hx⟩
        exact ⟨entries, rfl, e, he, hx⟩
    · rename_i herror
      simp [herror]
  · rename_i hstill
    simp [hstill]

instance {m : Method} {i : Instruction} {o : Nat} : Decidable (image.OperandAt m i o) :=
  decidable_of_iff (∃ body ∈ m.body, ∃ start, image.file.offsetOf m.rva.toNat = .ok start ∧
    o = start + body.headerSize + (i.offset + i.size - 4)) <| by
  simp only [OperandAt, Option.mem_def, exists_and_left]

/-- Where a debug entry tells of the PDB its record lies in data that is kept: it is not written over,
or only a hash of the PDB is renewed in it. -/
def RecordApart (image : Image) (layout : LayoutPlan) (e : DebugEntry) : Prop :=
  e.kind ≠ 16 ∧
  (e.kind = DebugEntry.codeView →
    24 ≤ e.dataSize.toNat ∧ image.file.headersSize ≤ e.dataPointer.toNat ∧
      e.dataPointer.toNat + e.dataSize.toNat ≤ layout.kept ∧
        ∀ r ∈ image.writtenRuns, Clear (e.dataPointer.toNat, e.dataSize.toNat) r) ∧
  (e.kind = DebugEntry.pdbChecksum → image.file.headersSize ≤ e.dataPointer.toNat ∧
    e.dataPointer.toNat + e.dataSize.toNat ≤ layout.kept ∧
      ∀ r ∈ image.patchedRuns, Clear (e.dataPointer.toNat, e.dataSize.toNat) r)

instance {e : DebugEntry} : Decidable (image.RecordApart layout e) :=
  inferInstanceAs (Decidable (_ ∧ _))

/-- Two hashes of the PDB lie in different records. -/
def HashesApart (e e' : DebugEntry) : Prop :=
  e.kind = DebugEntry.pdbChecksum → e'.kind = DebugEntry.pdbChecksum →
    Clear (e.dataPointer.toNat, e.dataSize.toNat) (e'.dataPointer.toNat, e'.dataSize.toNat)

instance : Std.Symm HashesApart where
  symm _ _ h hkind hkind' := (h hkind' hkind).symm

instance : DecidableRel HashesApart := fun _ _ => inferInstanceAs (Decidable (_ → _))

/-- The debug directory is found where it is read, in data that is kept and is not written over. -/
def DirectoryFound (image : Image) (layout : LayoutPlan) (d : Span) : Prop :=
  ∃ start, image.file.offsetOf d.rva.toNat = .ok start ∧
    image.file.headers.find image.file.optional d.rva.toNat = some start ∧
      image.file.headersSize ≤ start ∧ start + d.size.toNat ≤ layout.kept ∧
        (∀ r ∈ image.writtenRuns, Clear (start, d.size.toNat) r) ∧
        ∀ e ∈ PeFile.entriesAt image.file.data start d.size.toNat, image.RecordApart layout e

instance {d : Span} : Decidable (image.DirectoryFound layout d) :=
  inferInstanceAs (Decidable (∃ a : Nat, (_ : Result Nat) = Except.ok a ∧ _))

variable (image layout)

/-- A layout in which all that is renewed is in place: the headers do not grow, there are no vtable
slots, and hashes lie apart. -/
@[mk_iff]
structure Plain : Prop where
  headers : LayoutPlan.HeadersFit image.file
  sections : image.file.SectionsFit
  raw : ∀ t ∈ image.file.sections, t.rawSize ≠ 0
  count : image.file.sections.length + 1 < 2 ^ 16
  still : layout.grows = false
  power : PeHeaders.isPowerOfTwo image.file.fileAlignment = true
  certificate :
    PeHeaders.directory? image.file.optional PeFile.certificateDirectory = none
  reach : ∀ s ∈ image.file.sections,
    s.start + PeHeaders.reach s image.file.fileAlignment ≤ layout.sectionRva.toNat
  version : (Utf8.decode? image.metadata.root.versionBytes).isSome
  fixups : image.cli.vtableFixups.rva = 0 ∨ image.cli.vtableFixups.size = 0
  operand : ∀ m ∈ image.methods.toList, m.isAdded = false → ∀ a ∈ m.tokens,
    a.1.rva.toNat + a.1.size - 4 < 2 ^ 32 ∧
      ∃ o, image.file.offsetOf (a.1.rva.toNat + a.1.size - 4) = .ok o ∧ image.OperandAt m a.1 o
  written : ∀ r ∈ image.writtenRuns,
    image.file.headersSize ≤ r.1 ∧ r.1 + r.2 ≤ layout.kept
  cli : ∃ start, image.file.offsetOf image.file.cli.rva.toNat = .ok start ∧
    image.file.headers.find image.file.optional image.file.cli.rva.toNat = some start
  entries : ∃ entries, image.file.debugEntries = .ok entries ∧
    (∀ e ∈ entries, image.RecordApart layout e) ∧ entries.Pairwise HashesApart
  directory : ∀ d ∈ PeHeaders.directory? image.file.optional PeFile.debugDirectory,
    image.DirectoryFound layout d

variable {image layout}

instance {file : PeFile} : Decidable (LayoutPlan.HeadersFit file) :=
  decidable_of_iff' _ (LayoutPlan.headersFit_iff file)

instance : Decidable (image.Plain layout) := decidable_of_iff' _ (plain_iff image layout)

lemma not_covered_written {start len : Nat} (hclear : ∀ r ∈ image.writtenRuns, Clear (start, len) r)
    {x : Nat} (hx : Within start len x) : ¬ Covered image.WrittenRun x :=
  (not_covered_iff fun _ _ => writtenRun_iff).mpr hclear x hx

namespace Plain

variable (h : image.Plain layout)

include h

/-- No hash lies over what has been patched. -/
lemma not_covered_hashAt {start len : Nat} (hrun : image.PatchedRun start len) {x : Nat}
    (hx : Within start len x) : ¬ Covered image.HashAt x := fun ⟨_, _, hhash, hin⟩ => by
  obtain ⟨entries, hentries, e, he, hkind, hrecord, -⟩ := hhash.exists_entry hin
  obtain ⟨entries', hentries', hapart, -⟩ := h.entries
  rw [hentries] at hentries'
  cases hentries'
  obtain ⟨-, -, hclear⟩ := (hapart e he).2.2 hkind
  exact clear_iff.mp (hclear _ (patchedRun_iff.mp hrun)) x hrecord hx

lemma not_isDebugPointer {x : Nat} : ¬ image.IsDebugPointer layout x := fun ⟨hgrows, _⟩ => by
  rw [h.still] at hgrows
  cases hgrows

theorem contained : image.Contained layout where
  operand m hm hold a ha o ho := by
    obtain ⟨-, o', ho', hat⟩ := h.operand m hm hold a ha
    rw [ho] at ho'
    cases ho'
    exact hat
  fixups _ hat := absurd h.fixups hat.1
  hash hgrows := by
    rw [h.still] at hgrows
    cases hgrows
  written start len hrun := h.written (start, len) (writtenRun_iff.mp hrun)
  debug hgrows := by
    rw [h.still] at hgrows
    cases hgrows

lemma directory_found {d : Span} (hd : image.file.directory? PeFile.debugDirectory = some d) :
    image.DirectoryFound layout d := by
  obtain ⟨hget, hused⟩ := Option.filter_eq_some_iff.mp hd
  exact h.directory d (Option.filter_eq_some_iff.mpr ⟨hget, by simp_all⟩)

theorem debugApart : image.DebugApart layout where
  header _ hrun _ := h.not_covered_hashAt (.inr (.inr hrun))
  directory d start hd hstart := by
    obtain ⟨start', hstart', -, hle, hend, hclear, -⟩ := h.directory_found hd
    rw [hstart] at hstart'
    cases hstart'
    exact ⟨hle, hend, fun x => not_covered_written hclear⟩
  record entries hentries e he hkind := by
    obtain ⟨entries', hentries', hapart, -⟩ := h.entries
    rw [hentries] at hentries'
    cases hentries'
    obtain ⟨-, hle, hend, hclear⟩ := (hapart e he).2.1 hkind
    exact ⟨hle, hend, fun x hx => ⟨not_covered_written hclear hx, h.not_isDebugPointer⟩⟩

theorem found : image.Found layout where
  still := h.still
  power := h.power
  certificate := h.certificate
  cli := by
    obtain ⟨start, hstart, hfind⟩ := h.cli
    exact ⟨start, ⟨rfl, hstart⟩, hfind⟩
  header _ hrun _ := h.not_covered_hashAt (.inr (.inr hrun))
  reach := h.reach
  debug d hd := by
    obtain ⟨start, -, hfind, hle, hend, hclear, hentries⟩ := h.directory d hd
    refine ⟨start, hfind, hle, hend, fun x => not_covered_written hclear, fun e he => ?_⟩
    obtain ⟨hkind, hview, -⟩ := hentries e he
    exact ⟨hkind, fun h => ⟨(hview h).1, (hview h).2.2.1⟩⟩
  version := h.version

end Plain

end Image

end CliImage
