import CliImage.Proofs.CliHeader
import CliImage.Proofs.Layout.AddressSpace
import CliImage.Proofs.Output.Stages
import CliImage.Proofs.Renumber.Code

/-! Where the passes over an output write, in terms of the bytes of the input. -/

namespace CliImage

open Bytes

namespace Bytes

/-- One of many runs covers a place. -/
def Covered (runs : Nat → Nat → Prop) (x : Nat) : Prop :=
  ∃ start len, runs start len ∧ Within start len x

end Bytes

lemma DebugEntry.size_of_payload {e : DebugEntry} {file : PeFile} {payload : Bytes}
    (h : e.payload file = .ok payload) : payload.size = e.dataSize.toNat := by
  unfold DebugEntry.payload Bytes.slice at h
  split at h
  · cases h
    rw [Array.size_extract]
    omega
  · cases h

namespace LayoutPlan

variable {file : PeFile} {plan : LayoutPlan} {added : MetaSection} {after : Bytes} {pos len x : Nat}

/-- What is written in one piece at a shifted place changes bytes of the input in one piece. -/
lemma within_of_shift (h : Within (plan.shift pos) len (plan.shift x)) : Within pos len x := by
  obtain ⟨hle, hlt⟩ := h
  have hpos : pos ≤ x := by
    by_contra hx
    have : plan.shift x + (pos - x) ≤ plan.shift pos := shift_add_le (by omega)
    omega
  have : plan.shift pos + (x - pos) ≤ plan.shift x := shift_add_le hpos
  exact ⟨hpos, by omega⟩

/-- Behind the headers a run moves as a whole. -/
lemma exists_of_within_shift (hpos : plan.oldHeaders ≤ pos) (h : Within (plan.shift pos) len x) :
    ∃ o, Within pos len o ∧ plan.shift o = x := by
  rw [shift_of_le hpos] at h
  obtain ⟨hle, hlt⟩ := h
  exact ⟨x - plan.growth, ⟨by omega, by omega⟩, by rw [shift_of_le (by omega)]; omega⟩

lemma shift_eq_of_lt (h : plan.shift x < plan.oldHeaders) : plan.shift x = x := by
  unfold shift at h ⊢
  split at h
  · omega
  · rw [if_neg ‹_›]

/-- The headers and the section table end within the size that the headers tell. -/
structure HeadersEnd (file : PeFile) : Prop where
  directories : file.headers.optionalOffset + PeHeaders.fixedSize file.optional.isPlus +
    8 * file.optional.directories.length ≤ file.headersSize
  table : slot file ≤ file.headersSize

lemma HeadersFit.headersEnd (h : HeadersFit file) : HeadersEnd file := by
  have hdirectories := h.directories
  have htable := h.table
  refine ⟨?_, htable⟩
  rw [slot, PeHeaders.sectionTableOffset] at htable
  omega

lemma HeadersEnd.headerField_lt (h : HeadersEnd file) (hx : IsHeaderField file x) :
    x < file.headersSize := by
  have hdirectories := h.directories
  have hfixed : 96 ≤ PeHeaders.fixedSize file.optional.isPlus := by
    rw [PeHeaders.fixedSize]
    split <;> decide
  rw [PeHeaders.optionalOffset] at hdirectories
  rcases hx with ⟨-, hx⟩ | ⟨-, hx⟩ | ⟨-, hx⟩ | ⟨-, hx⟩ | ⟨hsome, -, hx⟩
  · omega
  · omega
  · omega
  · omega
  · have hlength : PeFile.certificateDirectory < file.optional.directories.length := by
      by_contra hle
      rw [PeFile.directory?, List.getElem?_eq_none (by omega)] at hsome
      cases hsome
    simp only [certificateOffset, PeHeaders.directoryOffset, PeHeaders.optionalOffset] at hx
    omega

/-- What lies at a place of the output is no byte of the input, or one of a kind. -/
def Shifted (plan : LayoutPlan) (q : Nat → Prop) (x : Nat) : Prop :=
  ∀ o < plan.kept, plan.shift o = x → q o

lemma Shifted.mono {q q' : Nat → Prop} (h : plan.Shifted q x) (hq : ∀ o, q o → q' o) :
    plan.Shifted q' x := fun o ho hx => hq o (h o ho hx)

/-- A place in a run that has been shifted as a whole. -/
def MovedRun (plan : LayoutPlan) (runs : Nat → Nat → Prop) (x : Nat) : Prop :=
  ∃ start len, runs start len ∧ Within (plan.shift start) len x

lemma MovedRun.shifted {runs : Nat → Nat → Prop} (h : plan.MovedRun runs x) :
    plan.Shifted (Covered runs) x := by
  rintro o - rfl
  obtain ⟨start, len, hrun, hx⟩ := h
  exact ⟨start, len, hrun, within_of_shift hx⟩

lemma MovedRun.mono {runs runs' : Nat → Nat → Prop} (h : plan.MovedRun runs x)
    (hruns : ∀ start len, runs start len → runs' start len) : plan.MovedRun runs' x := by
  obtain ⟨start, len, hrun, hx⟩ := h
  exact ⟨start, len, hruns start len hrun, hx⟩

/-- Behind what is kept nothing of the input lies. -/
lemma shifted_of_le {q : Nat → Prop} (h : plan.kept + plan.growth ≤ x) : plan.Shifted q x := by
  rintro o ho rfl
  unfold shift at h
  split at h <;> omega

lemma sameBut_of_build (h : plan.build file added = .ok after) :
    SameBut (fun x => (IsSectionPointer file plan x ∨ Within (slot file) 40 x) ∨
      IsHeaderField file x ∨ IsDebugPointer file plan x) (plan.place file added) after := by
  obtain ⟨tabled, headed, htable, hheaders, hpointers⟩ := build_eq_ok.mp h
  refine ((updateSectionTable_spec htable).1.mono fun x hx => .inl hx).trans ?_
  refine ((updateHeaders_spec hheaders).1.mono fun x hx => .inr (.inl hx)).trans ?_
  exact (updateDebugDirectory_spec hpointers).1.mono fun x hx => .inr (.inr hx)

end LayoutPlan

namespace Image

variable (image : Image) (layout : LayoutPlan)

/-- The operands of method tokens in the bodies of a file. -/
def OperandAt (m : Method) (i : Instruction) (o : Nat) : Prop :=
  ∃ body start, m.body = some body ∧ image.file.offsetOf m.rva.toNat = .ok start ∧
    o = start + body.headerSize + (i.offset + i.size - 4)

/-- The run of slots that an entry of the vtable fixups names. -/
def FixupsAt (table i start len : Nat) : Prop :=
  ∃ size, RidMap.slotSize? (image.file.data.natAt (table + 8 * i + 6) 2) = some size ∧
    image.file.offsetOf (image.file.data.natAt (table + 8 * i) 4) = .ok start ∧
    len = image.file.data.natAt (table + 8 * i + 4) 2 * size

/-- The part behind the name of the algorithm in a debug entry that holds a hash. -/
def HashAt (start len : Nat) : Prop :=
  ∃ entries, image.file.debugEntries = .ok entries ∧ ∃ e ∈ entries, e.kind = DebugEntry.pdbChecksum ∧
    ∃ payload name, e.payload image.file = .ok payload ∧ payload.findIdx? (· == 0) = some name ∧
      start = e.dataPointer.toNat + name + 1 ∧ len = payload.size - name - 1

/-- Where that part lies in an output. -/
def HashMoved (x : Nat) : Prop :=
  ∃ entries, image.file.debugEntries = .ok entries ∧ ∃ e ∈ entries, e.kind = DebugEntry.pdbChecksum ∧
    ∃ payload name, e.payload image.file = .ok payload ∧ payload.findIdx? (· == 0) = some name ∧
      Within (layout.shift e.dataPointer.toNat + name + 1) (payload.size - name - 1) x

def OperandRun (start len : Nat) : Prop :=
  len = 4 ∧ ∃ m ∈ image.methods.toList, m.isAdded = false ∧
    ∃ a ∈ m.tokens, image.OperandAt m a.1 start

def FixupTableAt (table : Nat) : Prop :=
  ¬ (image.cli.vtableFixups.rva = 0 ∨ image.cli.vtableFixups.size = 0) ∧
    image.file.offsetOf image.cli.vtableFixups.rva.toNat = .ok table

def fixupCount : Nat := image.cli.vtableFixups.size.toNat / 8

def FixupRun (start len : Nat) : Prop :=
  ∃ table, image.FixupTableAt table ∧ ∃ i < image.fixupCount, image.FixupsAt table i start len

def CliRun (start len : Nat) : Prop :=
  len = 72 ∧ image.file.offsetOf image.file.cli.rva.toNat = .ok start

def IsDebugPointer (x : Nat) : Prop :=
  layout.grows = true ∧ ∃ entries, image.file.debugEntries = .ok entries ∧
    ∃ e ∈ entries, Within e.pointerOffset 4 x

/-- Where the passes over the bytes that have been laid out write: operands in code, vtable slots,
the CLI header and hashes. -/
inductive WrittenRun (start len : Nat) : Prop
  | operand (h : image.OperandRun start len)
  | fixup (h : image.FixupRun start len)
  | cli (h : image.CliRun start len)
  | hash (h : image.HashAt start len)

/-- Where they write before the hashes are renewed. -/
def PatchedRun (start len : Nat) : Prop :=
  image.OperandRun start len ∨ image.FixupRun start len ∨ image.CliRun start len

/-- Where they write besides the method tokens of code. -/
def OtherRun (start len : Nat) : Prop :=
  image.FixupRun start len ∨ image.CliRun start len ∨ image.HashAt start len

/-- The bytes of the input that an output may change. -/
inductive Rewritten (x : Nat) : Prop
  | header (h : LayoutPlan.IsHeaderField image.file x)
  | pointer (h : LayoutPlan.IsSectionPointer image.file layout x)
  | slot (h : Within (LayoutPlan.slot image.file) 40 x) (hx : x < image.file.headersSize)
  | debug (h : image.IsDebugPointer layout x)
  | written (h : Covered image.WrittenRun x)

/-- Where the headers grow, the hashes that are renewed lie behind them. -/
def HashesKept : Prop :=
  layout.grows = true → ∀ entries, image.file.debugEntries = .ok entries → ∀ e ∈ entries,
    e.kind = DebugEntry.pdbChecksum → image.file.headersSize ≤ e.dataPointer.toNat

/-- The writer finds what it changes by address where the reader found it: operands lead to their
bodies, the table of vtable fixups stays what it was, and hashes move as a whole. -/
structure InPlace : Prop where
  operand : ∀ m ∈ image.methods.toList, m.isAdded = false → ∀ a ∈ m.tokens, ∀ o,
    image.file.offsetOf (a.1.rva.toNat + a.1.size - 4) = .ok o → image.OperandAt m a.1 o
  fixups : ∀ table, image.FixupTableAt table →
    image.file.headersSize ≤ table ∧ table + 8 * image.fixupCount ≤ layout.kept ∧
      ∀ x, Within table (8 * image.fixupCount) x →
        ¬ Covered image.OperandRun x ∧ ¬ Covered image.FixupRun x ∧
          ¬ image.IsDebugPointer layout x
  hash : image.HashesKept layout

variable {image}

lemma OtherRun.writtenRun {start len : Nat} (h : image.OtherRun start len) :
    image.WrittenRun start len := by
  rcases h with h | h | h
  · exact .fixup h
  · exact .cli h
  · exact .hash h

lemma writtenRun_iff_patched {start len : Nat} :
    image.WrittenRun start len ↔ image.PatchedRun start len ∨ image.HashAt start len := by
  constructor
  · rintro (h | h | h | h)
    · exact .inl (.inl h)
    · exact .inl (.inr (.inl h))
    · exact .inl (.inr (.inr h))
    · exact .inr h
  · rintro ((h | h | h) | h)
    · exact .operand h
    · exact .fixup h
    · exact .cli h
    · exact .hash h

/-- A hash lies in what its debug entry points at, behind the name of its algorithm. -/
lemma HashAt.exists_entry {start len x : Nat} (h : image.HashAt start len) (hx : Within start len x) :
    ∃ entries, image.file.debugEntries = .ok entries ∧ ∃ e ∈ entries,
      e.kind = DebugEntry.pdbChecksum ∧ Within e.dataPointer.toNat e.dataSize.toNat x ∧
        ∃ payload name, e.payload image.file = .ok payload ∧
          payload.findIdx? (· == 0) = some name ∧ e.dataPointer.toNat + name < x := by
  obtain ⟨entries, hentries, e, he, hkind, payload, name, hpayload, hname, rfl, rfl⟩ := h
  have hsize := DebugEntry.size_of_payload hpayload
  obtain ⟨hle, hlt⟩ := hx
  exact ⟨entries, hentries, e, he, hkind, ⟨by omega, by omega⟩, payload, name, hpayload, hname,
    by omega⟩

end Image

namespace Output

open LayoutPlan Edit

variable {image : Image} {layout : LayoutPlan} {key : Option KeyPair} {out : Output} {data after : Bytes}

lemma sameBut_built (hplan : Planned image.file layout) (hends : HeadersEnd image.file)
    {added : MetaSection} (h : layout.build image.file added = .ok after) :
    SameBut (layout.Shifted fun o => o < image.file.headersSize ∧ image.Rewritten layout o ∨
      image.IsDebugPointer layout o) (layout.place image.file added) after := by
  have hold := hplan.oldHeaders
  have htable := hends.table
  refine (sameBut_of_build h).mono ?_
  rintro x ((⟨hgrows, a, ha, hx⟩ | hx) | hx | ⟨hgrows, entries, hentries, e, he, hx⟩) o ho rfl
  · have hlt := (pointer_lt ha hx).2
    have heq : layout.shift o = o := shift_eq_of_lt (by omega)
    rw [heq] at hx hlt
    exact .inl ⟨by omega, .pointer ⟨hgrows, a, ha, hx⟩⟩
  · have hroom : LayoutPlan.slot image.file + 40 ≤ image.file.headersSize + layout.growth :=
      hplan.room
    obtain ⟨hle, hlt⟩ := hx
    have hearly : o < layout.oldHeaders := by
      by_contra hge
      rw [shift_of_le (by omega)] at hlt
      omega
    rw [shift_of_lt hearly] at hle hlt
    exact .inl ⟨by omega, .slot ⟨hle, hlt⟩ (by omega)⟩
  · have hlt := hends.headerField_lt hx
    have heq : layout.shift o = o := shift_eq_of_lt (by omega)
    rw [heq] at hx hlt
    exact .inl ⟨hlt, .header hx⟩
  · exact .inr ⟨hgrows, entries, hentries, e, he, within_of_shift hx⟩

lemma offset_eq_ok {file : PeFile} {rva o : Nat} : layout.offset file rva = .ok o ↔
    ∃ o', file.offsetOf rva = .ok o' ∧ layout.shift o' = o := by
  rw [offset, Result.bind_eq_ok]
  simp only [Except.ok.injEq]

lemma changes_code (hplace : image.InPlace layout) (map : RidMap) :
    Edit.Changes (map.code image.methods.toList (layout.offset image.file))
      (layout.MovedRun image.OperandRun) := by
  refine (RidMap.changes_code _).mono ?_
  rintro x ⟨a, ha, o', ho', hx⟩
  obtain ⟨tokens, htokens, ha⟩ := List.mem_flatten.mp ha
  obtain ⟨m, hm, rfl⟩ := List.mem_map.mp htokens
  obtain ⟨hm, hold⟩ := List.mem_filter.mp hm
  obtain ⟨o', hfound, rfl⟩ := offset_eq_ok.mp ho'
  have hold' : m.isAdded = false := by simpa using hold
  exact ⟨o', 4, ⟨rfl, m, hm, hold', a, ha, hplace.operand m hm hold' a ha o' hfound⟩, hx⟩

lemma four_le_of_slotSize? {kind size : Nat} (h : RidMap.slotSize? kind = some size) :
    4 ≤ size := by
  unfold RidMap.slotSize? at h
  split at h
  · cases h
    decide
  · split at h
    · cases h
      decide
    · cases h

/-- A slot that the table names in the output is one that it names in the input. -/
lemma fixupRun_of_slotAt {table o' : Nat} (htable : image.FixupTableAt table)
    (hsame : ∀ i < image.fixupCount, ∀ k w, k + w ≤ 8 →
      data.natAt (layout.shift table + 8 * i + k) w = image.file.data.natAt (table + 8 * i + k) w)
    (hslot : RidMap.SlotAt (layout.offset image.file) data (layout.shift table) image.fixupCount o')
    {x : Nat} (hx : Within o' 4 x) : layout.MovedRun image.FixupRun x := by
  obtain ⟨i, hi, size, start', hsize, hstart, k, hk, rfl⟩ := hslot
  have hrva := hsame i hi 0 4 (by decide)
  rw [Nat.add_zero, Nat.add_zero] at hrva
  rw [hsame i hi 6 2 (by decide)] at hsize
  rw [hsame i hi 4 2 (by decide)] at hk
  rw [hrva] at hstart
  obtain ⟨start, hfound, rfl⟩ := offset_eq_ok.mp hstart
  refine ⟨start, _, ⟨table, htable, i, hi, size, hsize, hfound, rfl⟩, ?_⟩
  have hfour := four_le_of_slotSize? hsize
  obtain ⟨hle, hlt⟩ := hx
  have hrun : (k + 1) * size ≤ image.file.data.natAt (table + 8 * i + 4) 2 * size :=
    Nat.mul_le_mul_right _ hk
  rw [Nat.succ_mul] at hrun
  exact ⟨by omega, by omega⟩

lemma sameBut_vtable (hplan : Planned image.file layout) (hplace : image.InPlace layout)
    {map : RidMap} {before : Bytes}
    (hbefore : ∀ o < layout.kept, image.file.headersSize ≤ o → ¬ Covered image.OperandRun o →
      ¬ image.IsDebugPointer layout o → before[layout.shift o]? = image.file.data[o]?)
    (h : map.vtable image.cli.vtableFixups (layout.offset image.file) before = .ok () after) :
    SameBut (layout.MovedRun image.FixupRun) before after := by
  by_cases hnone : image.cli.vtableFixups.rva = 0 ∨ image.cli.vtableFixups.size = 0
  · rw [RidMap.vtable, if_pos hnone] at h
    obtain ⟨-, rfl⟩ := Edit.pure_eq_ok.mp h
    exact SameBut.refl ..
  have h' := h
  rw [RidMap.vtable, if_neg hnone] at h'
  obtain ⟨table', _, hlift, -⟩ := Edit.bind_eq_ok.mp h'
  obtain ⟨htable', -⟩ := lift_eq_ok.mp hlift
  obtain ⟨table, hfound, rfl⟩ := offset_eq_ok.mp htable'
  have htable : image.FixupTableAt table := ⟨hnone, hfound⟩
  obtain ⟨hheaders, hkept, hfree⟩ := hplace.fixups table htable
  have hold := hplan.oldHeaders
  have hshift {o : Nat} (ho : image.file.headersSize ≤ o) : layout.shift o = o + layout.growth :=
    shift_of_le (by omega)
  have hsame : ∀ i < image.fixupCount, ∀ k w, k + w ≤ 8 →
      before.natAt (layout.shift table + 8 * i + k) w =
        image.file.data.natAt (table + 8 * i + k) w := by
    intro i hi k w hkw
    refine natAt_congr fun j hj => ?_
    obtain ⟨hoperand, -, hdebug⟩ := hfree (table + 8 * i + k + j) ⟨by omega, by omega⟩
    rw [← hbefore (table + 8 * i + k + j) (by omega) (by omega) hoperand hdebug, hshift hheaders,
      hshift (by omega)]
    congr 1
    omega
  refine (RidMap.sameBut_of_vtable htable' (fun o' hslot x hx hin => ?_) h).mono ?_
  · -- no slot lies in the table
    change Within _ (8 * image.fixupCount) x at hin
    rw [hshift hheaders] at hin
    obtain ⟨hle, hlt⟩ := hin
    have hx' : x = layout.shift (x - layout.growth) := by
      rw [hshift (by omega)]
      omega
    rw [hx'] at hx
    exact (hfree (x - layout.growth) ⟨by omega, by omega⟩).2.1
      ((fixupRun_of_slotAt htable hsame hslot hx).shifted _ (by omega) rfl)
  · rintro x ⟨o', hslot, hx⟩
    exact fixupRun_of_slotAt htable hsame hslot hx

/-- An entry's hash is renewed behind the name of its algorithm. -/
lemma changes_updateEntry {file : PeFile} (pdb : Bytes) (idOffset : Nat) (e : DebugEntry) :
    Edit.Changes (PdbChecksum.updateEntry file layout pdb idOffset e) fun x =>
      ∃ payload name, e.payload file = .ok payload ∧ payload.findIdx? (· == 0) = some name ∧
        Within (layout.shift e.dataPointer.toNat + name + 1) (payload.size - name - 1) x := by
  refine Changes.lift_bind fun payload hpayload => ?_
  split
  · exact Changes.pure _
  · rename_i name hname
    refine Changes.lift_bind fun hash _ => ?_
    split
    · exact Changes.pure _
    · split
      · rename_i hsize
        exact Changes.put fun x hx => ⟨payload, name, hpayload, hname, hsize ▸ hx⟩
      · exact Changes.pure _

lemma changes_hashes (pdb : Bytes) (idOffset : Nat) :
    Edit.Changes (PdbChecksum.update image.file layout pdb idOffset) (image.HashMoved layout) := by
  refine Changes.lift_bind fun entries hentries => Changes.forM fun e he => ?_
  obtain ⟨he, hkind⟩ := List.mem_filter.mp he
  have hkind' : e.kind = DebugEntry.pdbChecksum := by simpa using hkind
  exact (changes_updateEntry pdb idOffset e).mono fun x ⟨payload, name, hpayload, hname, hx⟩ =>
    ⟨entries, hentries, e, he, hkind', payload, name, hpayload, hname, hx⟩

/-- Hashes move as a whole. -/
lemma movedRun_of_hashMoved (hplan : Planned image.file layout) (hhash : image.HashesKept layout)
    {x : Nat} (h : image.HashMoved layout x) : layout.MovedRun image.HashAt x := by
  obtain ⟨entries, hentries, e, he, hkind, payload, name, hpayload, hname, hx⟩ := h
  refine ⟨_, _, ⟨entries, hentries, e, he, hkind, payload, name, hpayload, hname, rfl, rfl⟩, ?_⟩
  have hstart : layout.shift (e.dataPointer.toNat + name + 1) =
      layout.shift e.dataPointer.toNat + name + 1 := by
    have hold := hplan.oldHeaders
    by_cases hgrows : layout.grows = true
    · have := hhash hgrows entries hentries e he hkind
      rw [shift_of_le (by omega), shift_of_le (by omega)]
      omega
    · have hnone : layout.growth = 0 := by
        simpa [grows] using hgrows
      unfold shift
      rw [hnone]
      split <;> split <;> omega
  rwa [hstart]

lemma sameBut_symbols {pdb : Option Metadata} {tables : Tables} {symbols : Option Bytes}
    (h : writeSymbols? image.file layout pdb tables data = .ok (symbols, after)) :
    SameBut (image.HashMoved layout) data after := by
  unfold writeSymbols? at h
  split at h
  · cases h
    exact SameBut.refl ..
  · obtain ⟨_, hwrite, h⟩ := Result.bind_eq_ok.mp h
    cases h
    obtain ⟨⟨bytes, idOffset⟩, _, h⟩ := Result.bind_eq_ok.mp hwrite
    obtain ⟨_, hupdate, h⟩ := Result.bind_eq_ok.mp h
    cases h
    exact changes_hashes bytes idOffset (run_eq_ok.mp hupdate)

lemma sameBut_put {offset : Nat} {new : Bytes} (h : data.put offset new = .ok after) :
    SameBut (Within offset new.size) data after := by
  unfold Bytes.put at h
  split at h
  · cases h
    exact sameBut_overlay ..
  · cases h

lemma standsAt_put {offset : Nat} {new : Bytes} (h : data.put offset new = .ok after) :
    after.StandsAt offset new := by
  unfold Bytes.put at h
  split at h
  · cases h
    exact standsAt_overlay ‹_›
  · cases h

/-- A signature goes into the added section. -/
lemma sameBut_signed {cli : CliHeader} (h : signOutput layout cli key data = .ok after) :
    SameBut (fun x => layout.sectionStart ≤ x) data after := by
  unfold signOutput at h
  split at h
  · cases h
    exact SameBut.refl ..
  · simp only [StrongName.sign, Result.unless_throw_eq_ok, Result.bind_eq_ok] at h
    obtain ⟨-, digest, -, signature, -, hput⟩ := h
    refine (sameBut_put hput).mono fun x hx => ?_
    have := hx.1
    rw [sectionOffset] at this
    omega

lemma sameBut_checksum {field : Nat} {checksum : UInt32}
    (h : Checksum.update data field = .ok (checksum, after)) :
    SameBut (Within field 4) data after := by
  unfold Checksum.update at h
  obtain ⟨-, h⟩ := Result.unless_throw_eq_ok.mp h
  obtain ⟨_, hput, h⟩ := Result.bind_eq_ok.mp h
  cases h
  have hsame := sameBut_put hput
  rwa [size_ofUInt32] at hsame

/-- Method tokens in code are renumbered before anything else is renewed. -/
lemma coded_of_patch (hplan : Planned image.file layout) (hplace : image.InPlace layout)
    {plan : MethodPlan} {cli : CliHeader} {before : Bytes}
    (hbefore : ∀ o < layout.kept, image.file.headersSize ≤ o →
      ¬ image.IsDebugPointer layout o → before[layout.shift o]? = image.file.data[o]?)
    (h : patch image plan layout cli before = .ok () after) : ∃ coded,
      (plan.isUnchanged = true ∧ coded = before ∨ plan.isUnchanged = false ∧
        ∃ n, plan.rids.code image.methods.toList (layout.offset image.file) before = .ok n coded) ∧
      SameBut (layout.MovedRun image.OtherRun) coded after := by
  have hheader {before : Bytes} (h : (do
      let start ← Edit.lift (layout.offset image.file image.file.cli.rva.toNat)
      Edit.put start cli.encode : Edit Unit) before = .ok () after) :
      SameBut (layout.MovedRun image.OtherRun) before after := by
    obtain ⟨start', _, hlift, h⟩ := Edit.bind_eq_ok.mp h
    obtain ⟨hstart', rfl⟩ := lift_eq_ok.mp hlift
    obtain ⟨start, hstart, rfl⟩ := offset_eq_ok.mp hstart'
    refine Changes.put (fun x hx => ?_) h
    rw [CliHeader.size_encode] at hx
    exact ⟨start, 72, .inr (.inl ⟨rfl, hstart⟩), hx⟩
  unfold patch at h
  simp only at h
  split at h
  · rename_i hchanged
    obtain ⟨n, coded, hcode, h⟩ := Edit.bind_eq_ok.mp h
    obtain ⟨_, fixed, hvtable, h⟩ := Edit.bind_eq_ok.mp h
    have hcoded := changes_code hplace _ hcode
    refine ⟨coded, .inr ⟨by simpa using hchanged, n, hcode⟩, SameBut.trans ?_ (hheader h)⟩
    refine (sameBut_vtable hplan hplace (fun o ho hheaders hoperand hdebug => ?_) hvtable).mono
      fun x hx => hx.mono fun _ _ => .inl
    rw [hcoded.2 _ fun hx => hoperand (hx.shifted o ho rfl), hbefore o ho hheaders hdebug]
  · rename_i hunchanged
    exact ⟨before, .inl ⟨by simpa using hunchanged, rfl⟩, hheader h⟩

lemma sameBut_patched (hplan : Planned image.file layout) (hplace : image.InPlace layout)
    {plan : MethodPlan} {cli : CliHeader} {before : Bytes}
    (hbefore : ∀ o < layout.kept, image.file.headersSize ≤ o →
      ¬ image.IsDebugPointer layout o → before[layout.shift o]? = image.file.data[o]?)
    (h : patch image plan layout cli before = .ok () after) :
    SameBut (layout.MovedRun image.WrittenRun) before after := by
  obtain ⟨coded, hcode, hsame⟩ := coded_of_patch hplan hplace hbefore h
  refine SameBut.trans ?_ (hsame.mono fun x hx => hx.mono fun _ _ hrun => hrun.writtenRun)
  rcases hcode with ⟨-, rfl⟩ | ⟨-, n, hcode⟩
  · exact SameBut.refl ..
  · exact (changes_code hplace _ hcode).mono fun x hx => hx.mono fun _ _ => .operand

/-- The passes write where they found what they renew in the input. -/
lemma Stages.Unsigned.sameBut {s : Stages} (h : s.Unsigned image key)
    (hplan : Planned image.file s.layout) (hplace : image.InPlace s.layout)
    (hbuilt : ∀ o < s.layout.kept, image.file.headersSize ≤ o →
      ¬ image.IsDebugPointer s.layout o → s.built[s.layout.shift o]? = image.file.data[o]?) :
    SameBut (s.layout.MovedRun image.WrittenRun) s.built s.hashed :=
  (sameBut_patched hplan hplace hbuilt h.patched).trans
    ((sameBut_symbols h.symbols).mono fun _ hx =>
      (movedRun_of_hashMoved hplan hplace.hash hx).mono fun _ _ => .hash)

end Output

end CliImage
