import CliImage.Proofs.Image.Retained
import CliImage.Proofs.Output.Bodies
import CliImage.Proofs.Output.Opened
import CliImage.Proofs.Renumber.FirstType

/-! What is asked of an image so that its outputs can be read again. All of it is about what has
been read, so that methods that are added make no difference. -/

namespace CliImage

open Bytes

namespace Image

/-- An image whose parts lie in the data of sections on pages of their own, where nothing is written
over what is read but the operands of bodies; whose first type comes before all methods or has some;
and whose type references have names. -/
structure WellFormed (image : Image) (layout : LayoutPlan) : Prop
    extends image.Contained layout, image.Apparent layout where
  headers : LayoutPlan.HeadersFit image.file
  sections : image.file.SectionsFit
  count : image.file.sections.length + 1 < 2 ^ 16
  version : image.metadata.root.versionBytes.size % 4 = 0
  slots : image.metadata.slots.length < 2 ^ 16
  code : image.CodeApart layout
  first : image.StartsFirst
  references : image.metadata.NamesAll .typeRef

variable {image : Image} {layout : LayoutPlan} {added : List Method}
  (hadded : ∀ m ∈ added, m.rid = none)
include hadded

lemma old_grownBy {m : Method} :
    m ∈ (image.grownBy added).methods.toList ∧ m.isAdded = false ↔
      m ∈ image.methods.toList ∧ m.isAdded = false := by
  rw [toList_methods_grownBy, List.mem_append]
  refine ⟨fun ⟨hm, hold⟩ => ⟨hm.resolve_right fun hm => ?_, hold⟩, fun ⟨hm, hold⟩ => ⟨.inl hm, hold⟩⟩
  rw [Method.isAdded, hadded m hm] at hold
  cases hold

lemma operandRuns_grownBy : (image.grownBy added).operandRuns = image.operandRuns := by
  have hnone : added.filter (fun m => !m.isAdded) = [] := List.filter_eq_nil_iff.mpr fun m hm => by
    rw [Method.isAdded, hadded m hm]
    decide
  rw [operandRuns, toList_methods_grownBy, List.filter_append, hnone, List.append_nil]
  rfl

lemma operandRun_grownBy : (image.grownBy added).OperandRun = image.OperandRun := by
  funext start len
  rw [eq_iff_iff, operandRun_iff, operandRun_iff, operandRuns_grownBy hadded]

lemma writtenRun_grownBy : (image.grownBy added).WrittenRun = image.WrittenRun := by
  funext start len
  rw [eq_iff_iff, writtenRun_iff, writtenRun_iff, writtenRuns, patchedRuns,
    operandRuns_grownBy hadded]
  rfl

lemma InPlace.grownBy (h : image.InPlace layout) : (image.grownBy added).InPlace layout where
  operand m hm hold := by
    exact h.operand m ((old_grownBy hadded).mp ⟨hm, hold⟩).1 hold
  fixups table htable := by
    rw [operandRun_grownBy hadded]
    exact h.fixups table htable
  hash := h.hash

lemma Contained.grownBy (h : image.Contained layout) : (image.grownBy added).Contained layout where
  toInPlace := h.toInPlace.grownBy hadded
  written := by
    rw [writtenRun_grownBy hadded]
    exact h.written
  debug := h.debug

lemma CodeApart.grownBy (h : image.CodeApart layout) : (image.grownBy added).CodeApart layout := by
  intro m hm hold body hbody
  have hapart := h m ((old_grownBy hadded).mp ⟨hm, hold⟩).1 hold body hbody
  rw [BodyApart, operandRuns_grownBy hadded]
  exact hapart

lemma Apparent.grownBy (h : image.Apparent layout) : (image.grownBy added).Apparent layout where
  toPaged := h.toPaged
  certificate := h.certificate
  cli := h.cli
  metadata := h.metadata
  header := h.header
  directory := by
    rw [writtenRun_grownBy hadded]
    exact h.directory
  record := by
    unfold RecordKept
    rw [writtenRun_grownBy hadded]
    exact h.record

theorem WellFormed.grownBy (h : image.WellFormed layout) :
    (image.grownBy added).WellFormed layout where
  toContained := h.toContained.grownBy hadded
  toApparent := h.toApparent.grownBy hadded
  headers := h.headers
  sections := h.sections
  count := h.count
  version := h.version
  slots := h.slots
  code := h.code.grownBy hadded
  first hne := h.first (by rwa [Image.grownBy, Array.size_mapIdx] at hne)
  references := h.references

end Image

namespace PeFile

/-- Bytes at an address that lie in the data of one section. -/
def HasData (file : PeFile) (rva len : Nat) : Prop :=
  ∃ start, file.offsetOf rva = .ok start ∧
    ∃ s ∈ file.sections, file.sectionOf? rva = some s ∧ start + len ≤ s.rawEnd

variable {file : PeFile} {plan : LayoutPlan} {rva len start : Nat}

instance : Decidable (file.HasData rva len) :=
  inferInstanceAs (Decidable (∃ start : Nat, (_ : Result Nat) = .ok start ∧ _))

lemma lt_of_offsetOf (h : file.offsetOf rva = .ok start) : rva < 2 ^ 32 := by
  by_contra hlarge
  rw [offsetOf, if_pos (Nat.not_lt.mp hlarge)] at h
  cases h

lemma HasData.leads (h : file.HasData rva len) :
    ∃ s start, file.Leads s rva start ∧ start + len ≤ s.rawEnd := by
  obtain ⟨start, hstart, s, -, hs, hend⟩ := h
  exact ⟨s, start, ⟨hs, hstart⟩, hend⟩

lemma HasData.kept (h : file.HasData rva len) (hplan : LayoutPlan.Planned file plan)
    (hsections : file.SectionsFit) (hstart : file.offsetOf rva = .ok start) :
    file.headersSize ≤ start ∧ start + len ≤ plan.kept := by
  obtain ⟨s, start', hleads, hend⟩ := h.leads
  obtain rfl := Except.ok.inj (hstart.symm.trans hleads.2)
  obtain ⟨-, -, -, rfl⟩ := leads_iff.mp hleads
  obtain ⟨hle, hfit⟩ := hsections s hleads.mem hleads.rawSize_ne
  have := rawEnd_le_endOfSections hleads.mem
  have := hplan.kept
  omega

end PeFile

namespace Image

/-- The runs that are patched in addition to operands in code. -/
def otherRuns (image : Image) (layout : LayoutPlan) : List (Nat × Nat) :=
  image.fixupRuns ++ image.cliRuns ++ image.hashRuns ++ image.debugPointerRuns layout

/-- The parts of an image lie in the data of its sections, which are apart, and no two things that
are patched overlap, unless they are the same operand. -/
structure Regular (image : Image) (layout : LayoutPlan) : Prop where
  headers : LayoutPlan.HeadersFit image.file
  sections : image.file.SectionsFit
  extents : image.file.sections.Pairwise fun s t => ∀ rva, s.Contains rva → ¬ t.Contains rva
  cli : image.file.HasData image.file.cli.rva.toNat CliHeader.encodedSize
  metadata : image.file.HasData image.cli.metadata.rva.toNat image.cli.metadata.size.toNat
  body : ∀ m ∈ image.methods.toList, m.isAdded = false → ∀ body ∈ m.body,
    image.file.HasData m.rva.toNat body.totalSize
  slot : ∀ table, image.FixupTableAt table → ∀ i < image.fixupCount, ∀ start len,
    image.FixupsAt table i start len →
      image.file.HasData (image.file.data.natAt (table + 8 * i) 4) len
  payload : ∀ entries, image.file.debugEntries = .ok entries → ∀ e ∈ entries, e.dataSize ≠ 0 →
    ∃ s ∈ image.file.sections, s.rawStart ≤ e.dataPointer.toNat ∧
      e.dataPointer.toNat + e.dataSize.toNat ≤ s.rawEnd
  operands : image.operandRuns.Pairwise fun r r' => r = r' ∨ Clear r r'
  others : (image.otherRuns layout).Pairwise Clear
  apart : ∀ r ∈ image.operandRuns, ∀ r' ∈ image.otherRuns layout, Clear r r'
  first : image.StartsFirst
  version : image.metadata.root.versionBytes.size % 4 = 0

/-- What leads to other parts lies in the data of sections too and is not patched, the sections take
pages of their own, references have names, and what is counted can be counted. -/
structure Lasting (image : Image) (layout : LayoutPlan) : Prop
    extends LayoutPlan.Paged image.file layout where
  certificate : PeHeaders.directory? image.file.optional PeFile.certificateDirectory =
    image.file.directory? PeFile.certificateDirectory
  directory : ∀ d, PeHeaders.directory? image.file.optional PeFile.debugDirectory = some d →
    d.rva ≠ 0 ∧ image.file.HasData d.rva.toNat d.size.toNat
  fixups : ∀ table, image.FixupTableAt table →
    image.file.HasData image.cli.vtableFixups.rva.toNat (8 * image.fixupCount) ∧
      ∀ r ∈ image.operandRuns ++ image.fixupRuns ++ image.debugPointerRuns layout,
        Clear (table, 8 * image.fixupCount) r
  entries : ∀ d start, image.file.directory? PeFile.debugDirectory = some d →
    image.file.offsetOf d.rva.toNat = .ok start →
      ∀ r ∈ image.writtenRuns, Clear (start, d.size.toNat) r
  record : ∀ entries, image.file.debugEntries = .ok entries → ∀ e ∈ entries,
    (e.kind = DebugEntry.pdbChecksum → e.dataSize ≠ 0) ∧
      (e.kind = 16 → e.dataSize ≠ 0 →
        4 + image.file.data.natAt e.dataPointer.toNat 4 ≤ e.dataSize.toNat ∧
          ∀ r ∈ image.writtenRuns ++ image.debugPointerRuns layout, Clear (e.dataPointer.toNat, 4) r)
  references : image.metadata.NamesAll .typeRef
  count : image.file.sections.length + 1 < 2 ^ 16
  slots : image.metadata.slots.length < 2 ^ 16

lemma size_of_payload {file : PeFile} {e : DebugEntry} {bytes : Bytes}
    (h : e.payload file = .ok bytes) : bytes.size = e.dataSize.toNat := by
  unfold DebugEntry.payload Bytes.slice at h
  split at h
  · cases h
    simp
    omega
  · cases h

namespace Regular

variable {image : Image} {layout : LayoutPlan} {data : Bytes} (h : image.Regular layout)
  (hplan : LayoutPlan.Planned image.file layout)
include h hplan

lemma payload_kept {entries : List DebugEntry} {e : DebugEntry}
    (hentries : image.file.debugEntries = .ok entries) (he : e ∈ entries) (hne : e.dataSize ≠ 0) :
    image.file.headersSize ≤ e.dataPointer.toNat ∧
      e.dataPointer.toNat + e.dataSize.toNat ≤ layout.kept := by
  obtain ⟨s, hs, hle, hend⟩ := h.payload entries hentries e he hne
  have hpos := UInt32.toNat_inj.ne.mpr hne
  have hraw : s.rawSize ≠ 0 := fun hzero => by
    rw [Section.rawEnd, hzero] at hend
    rw [Section.rawStart] at hle
    change _ ≤ _ + 0 at hend
    change _ ≠ 0 at hpos
    omega
  obtain ⟨hle', hfit⟩ := h.sections s hs hraw
  have := PeFile.rawEnd_le_endOfSections hs
  have := hplan.kept
  omega

lemma body_kept {m : Method} {body : Body} {start : Nat} (hm : m ∈ image.methods.toList)
    (hold : m.isAdded = false) (hbody : m.body = some body)
    (hstart : image.file.offsetOf m.rva.toNat = .ok start) :
    image.file.headersSize ≤ start ∧ start + body.totalSize ≤ layout.kept :=
  (h.body m hm hold body hbody).kept hplan h.sections hstart

lemma written {start len : Nat} (himage : image.Prepared data)
    (hrun : image.WrittenRun start len) :
    image.file.headersSize ≤ start ∧ start + len ≤ layout.kept := by
  cases hrun with
  | operand hrun =>
    obtain ⟨rfl, m, hm, hold, a, ha, body, start, hbody, hstart, rfl⟩ := hrun
    obtain ⟨w, code, hreads⟩ := himage.readsBody hm hold hbody
    obtain ⟨hi, htoken, -⟩ := mem_tokens.mp ha
    obtain ⟨hend, hsize, -⟩ := hreads.token hi htoken
    obtain ⟨-, htotal, -⟩ := Body.bounds_of_read hreads.read
    rw [Body.size] at htotal
    have := h.body_kept hplan hm hold hbody hstart
    omega
  | fixup hrun =>
    obtain ⟨table, htable, i, hi, size, hsize, hstart, rfl⟩ := hrun
    exact (h.slot table htable i hi start _ ⟨size, hsize, hstart, rfl⟩).kept hplan h.sections hstart
  | cli hrun =>
    obtain ⟨rfl, hstart⟩ := hrun
    exact h.cli.kept hplan h.sections hstart
  | hash hrun =>
    -- a payload in which a name ends is not empty
    obtain ⟨entries, hentries, e, he, -, payload, name, hpayload, hname, rfl, rfl⟩ := hrun
    obtain ⟨hlt, -⟩ := Array.findIdx?_eq_some_iff_getElem.mp hname
    have hsize := size_of_payload hpayload
    have hne : e.dataSize ≠ 0 := fun hzero => by
      rw [hzero] at hsize
      change _ = 0 at hsize
      omega
    have := h.payload_kept hplan hentries he hne
    omega

omit hplan in
/-- Operands are found in their bodies by address. -/
lemma operand (himage : image.Prepared data) (hpaged : LayoutPlan.Paged image.file layout)
    {m : Method} (hm : m ∈ image.methods.toList) (hold : m.isAdded = false)
    {a : Instruction × Token} (ha : a ∈ m.tokens) {o : Nat}
    (ho : image.file.offsetOf (a.1.rva.toNat + a.1.size - 4) = .ok o) : image.OperandAt m a.1 o := by
  obtain ⟨hi, htoken, -⟩ := mem_tokens.mp ha
  obtain ⟨-, -, hnone⟩ | ⟨-, body, w, code, hbody, hreads⟩ :=
    PeFile.readBody_eq_ok.mp (himage.readBody hm hold)
  · rw [hnone] at hi
    cases hi
  obtain ⟨hend, hsize, -⟩ := hreads.token hi htoken
  obtain ⟨-, htotal, -⟩ := Body.bounds_of_read hreads.read
  rw [Body.size] at htotal
  obtain ⟨s, start, hleads, hfit⟩ := (h.body m hm hold body hbody).leads
  obtain ⟨hs, hrva, hlt, hstart⟩ := PeFile.leads_iff.mp hleads
  have hle := (PeFile.contains_of_sectionOf? hs).1
  rw [Section.rawEnd] at hfit
  rw [Section.rawStart] at hstart
  have haddress := hreads.address hi (by
    have := s.rawPointer.toNat_lt
    have := s.rawSize.toNat_lt
    omega)
  have hholds : s.Holds (a.1.rva.toNat + a.1.size - 4) := ⟨by omega, by omega⟩
  have hoffset := PeFile.offsetOf_of_holds hpaged.apart hleads.mem hholds
    (PeFile.lt_of_offsetOf ho)
  refine ⟨body, start, hbody, hleads.2, ?_⟩
  rw [hoffset] at ho
  obtain rfl := Except.ok.inj ho
  rw [Section.rawStart]
  omega

lemma inPlace (himage : image.Prepared data) (hlasting : image.Lasting layout) :
    image.InPlace layout where
  operand m hm hold a ha o ho := h.operand himage hlasting.toPaged hm hold ha ho
  fixups table htable := by
    obtain ⟨hdata, hclear⟩ := hlasting.fixups table htable
    obtain ⟨hle, hend⟩ := hdata.kept hplan h.sections htable.2
    refine ⟨hle, hend, fun x hx => ⟨?_, ?_, fun hpointer => ?_⟩⟩
    · exact (not_covered_iff fun _ _ => operandRun_iff).mpr (fun r hr => hclear r (by simp [hr])) x hx
    · exact (not_covered_iff fun _ _ => fixupRun_iff).mpr (fun r hr => hclear r (by simp [hr])) x hx
    · exact (not_covered_iff fun _ _ => Iff.rfl).mpr (fun r hr => hclear r (by simp [hr])) x hx
        (debugPointer_iff.mp hpointer)
  hash hgrows entries hentries e he hkind :=
    (h.payload_kept hplan hentries he ((hlasting.record entries hentries e he).1 hkind)).1

lemma contained (himage : image.Prepared data) (hlasting : image.Lasting layout) :
    image.Contained layout where
  toInPlace := h.inPlace hplan himage hlasting
  written start len hrun := h.written hplan himage hrun
  debug hgrows entries hentries e he := by
    obtain ⟨d, start, hd, hstart, hle, hend, -⟩ := PeFile.debugEntry_within hentries he
    have hkept := (hlasting.directory d (PeFile.directory?_of_both hd)).2.kept hplan h.sections hstart
    rw [DebugEntry.size] at hend
    rw [DebugEntry.pointerOffset]
    omega

lemma apparent (hlasting : image.Lasting layout) :
    image.Apparent layout where
  toPaged := hlasting.toPaged
  certificate := hlasting.certificate
  cli := by
    obtain ⟨s, start, hleads, -⟩ := h.cli.leads
    exact ⟨s, start, hleads⟩
  metadata := by
    obtain ⟨s, start, hleads, -⟩ := h.metadata.leads
    exact ⟨s, start, hleads⟩
  header start hrun := by
    have hothers := (List.pairwise_append.mp (List.pairwise_append.mp h.others).1).2.2
    exact (not_covered_iff fun _ _ => hashAt_iff).mpr fun r hr =>
      hothers _ (List.mem_append_right _ (cliRun_iff.mp hrun)) r hr
  directory d hd := by
    obtain ⟨hrva, hdata⟩ := hlasting.directory d hd
    obtain ⟨s, start, hleads, -⟩ := hdata.leads
    obtain ⟨hle, hend⟩ := hdata.kept hplan h.sections hleads.2
    refine ⟨hrva, start, hleads.2, hle, hend, fun x hx => ?_⟩
    have hsize : d.size ≠ 0 := fun hzero => by
      rw [hzero] at hx
      exact absurd hx.2 (Nat.not_lt.mpr hx.1)
    have hboth : image.file.directory? PeFile.debugDirectory = some d :=
      Option.filter_eq_some_iff.mpr
        ⟨(Option.filter_eq_some_iff.mp hd).1, by simp [hrva, hsize]⟩
    exact (not_covered_iff fun _ _ => writtenRun_iff).mpr
      (hlasting.entries d start hboth hleads.2) x hx
  record entries hentries e he hne := by
    obtain ⟨hle, hend⟩ := h.payload_kept hplan hentries he hne
    refine ⟨fun _ => hend, fun hkind => ?_⟩
    obtain ⟨hlength, hclear⟩ := (hlasting.record entries hentries e he).2 hkind hne
    refine ⟨hle, by omega, fun x hx => ⟨?_, fun hpointer => ?_⟩⟩
    · exact (not_covered_iff fun _ _ => writtenRun_iff).mpr
        (fun r hr => hclear r (List.mem_append_left _ hr)) x hx
    · exact (not_covered_iff fun _ _ => Iff.rfl).mpr
        (fun r hr => hclear r (List.mem_append_right _ hr)) x hx (debugPointer_iff.mp hpointer)

theorem wellFormed (himage : image.Prepared data) (hlasting : image.Lasting layout)
    (hcode : image.CodeApart layout) : image.WellFormed layout where
  toContained := h.contained hplan himage hlasting
  toApparent := h.apparent hplan hlasting
  headers := h.headers
  sections := h.sections
  count := hlasting.count
  version := h.version
  slots := hlasting.slots
  code := hcode
  first := h.first
  references := hlasting.references

end Regular

variable {image : Image} {layout : LayoutPlan}

lemma Plain.shift_eq (h : image.Plain layout) {o : Nat} : layout.shift o = o := by
  have hstill := h.still
  rw [LayoutPlan.grows, decide_eq_false_iff_not] at hstill
  rw [LayoutPlan.shift]
  split
  · omega
  · rfl

/-- A plain image with a single section, without directories but that of its CLI header. -/
@[mk_iff]
structure Bare (image : Image) (layout : LayoutPlan) : Prop where
  plain : image.Plain layout
  single : image.file.sections.length = 1
  below : ∀ s ∈ image.file.sections, s.start + alignUp s.extent 0x1000 ≤ layout.sectionRva.toNat
  undebugged : PeHeaders.directory? image.file.optional PeFile.debugDirectory = none
  unsigned : PeHeaders.directory? image.file.optional PeFile.certificateDirectory = none
  cli : image.file.HasData image.file.cli.rva.toNat CliHeader.encodedSize
  metadata : image.file.HasData image.cli.metadata.rva.toNat image.cli.metadata.size.toNat
  body : ∀ m ∈ image.methods.toList, m.isAdded = false → ∀ body ∈ m.body,
    image.file.HasData m.rva.toNat body.totalSize
  operands : image.operandRuns.Pairwise fun r r' => r = r' ∨ Clear r r'
  apart : ∀ r ∈ image.operandRuns, ∀ r' ∈ image.cliRuns, Clear r r'
  first : image.StartsFirst
  version : image.metadata.root.versionBytes.size % 4 = 0
  references : image.metadata.NamesAll .typeRef
  slots : image.metadata.slots.length < 2 ^ 16

instance : Decidable (image.Bare layout) := decidable_of_iff' _ (bare_iff image layout)

namespace Bare

variable (h : image.Bare layout)
include h

lemma not_directory {d : Span} (hd : image.file.directory? PeFile.debugDirectory = some d) :
    False := by
  have hnone := PeFile.directory?_of_both hd
  rw [h.undebugged] at hnone
  cases hnone

lemma entries_eq : image.file.debugEntries = .ok [] := by
  unfold PeFile.debugEntries
  split
  · rfl
  · rename_i d hd
    exact (h.not_directory hd).elim

lemma otherRuns_eq : image.otherRuns layout = image.cliRuns := by
  simp [otherRuns, fixupRuns, h.plain.fixups, hashRuns, h.entries_eq, debugPointerRuns, h.plain.still]

theorem regular : image.Regular layout where
  headers := h.plain.headers
  sections := h.plain.sections
  extents := by
    obtain ⟨s, hs⟩ := List.length_eq_one_iff.mp h.single
    rw [hs]
    exact List.pairwise_singleton ..
  cli := h.cli
  metadata := h.metadata
  body := h.body
  slot table htable := (htable.1 h.plain.fixups).elim
  payload entries hentries e he := by
    rw [h.entries_eq] at hentries
    cases hentries
    cases he
  operands := h.operands
  others := by
    rw [h.otherRuns_eq, cliRuns]
    split
    · exact List.pairwise_singleton ..
    · exact .nil
  apart := by
    rw [h.otherRuns_eq]
    exact h.apart
  first := h.first
  version := h.version

theorem lasting : image.Lasting layout where
  apart := by
    obtain ⟨s, hs⟩ := List.length_eq_one_iff.mp h.single
    rw [PeHeaders.Apart, hs]
    exact List.pairwise_singleton ..
  below := h.below
  certificate := by
    cases hd : image.file.directory? PeFile.certificateDirectory with
    | none => exact h.unsigned
    | some d => exact PeFile.directory?_of_both hd
  directory d hd := by
    rw [h.undebugged] at hd
    cases hd
  fixups table htable := (htable.1 h.plain.fixups).elim
  entries d _ hd := (h.not_directory hd).elim
  record entries hentries e he := by
    rw [h.entries_eq] at hentries
    cases hentries
    cases he
  references := h.references
  count := h.plain.count
  slots := h.slots

end Bare

end Image

end CliImage
