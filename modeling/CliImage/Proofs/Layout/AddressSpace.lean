import CliImage.Proofs.Layout.MetaSection
import CliImage.Proofs.Layout.Reread
import CliImage.Proofs.Pe.Address

/-! Addresses in the output: those of the input lead to the bytes they led to, and those of the added
section to what was pushed. -/

namespace CliImage

namespace PeFile

variable {file : PeFile} {data : Bytes} {s : Section} {rva o : Nat}

/-- The raw data of every section lies in the file, behind the headers. -/
def SectionsFit (file : PeFile) : Prop :=
  ∀ s ∈ file.sections, s.rawSize ≠ 0 → file.headersSize ≤ s.rawStart ∧ s.rawEnd ≤ file.data.size

instance (file : PeFile) : Decidable file.SectionsFit :=
  inferInstanceAs (Decidable (∀ s ∈ file.sections,
    s.rawSize ≠ 0 → file.headersSize ≤ s.rawStart ∧ s.rawEnd ≤ file.data.size))

lemma size_of_slice {len : Nat} {bytes : Bytes} (h : file.slice rva len = .ok bytes) :
    bytes.size ≤ file.data.size := by
  obtain ⟨start, -, h⟩ := Result.bind_eq_ok.mp h
  unfold Bytes.slice at h
  split at h
  · cases h
    rw [Array.size_extract]
    omega
  · cases h

/-- The CLI header lies in the data of a section. -/
lemma exists_section (hread : read data = .ok file) : ∃ s ∈ file.sections, s.rawSize ≠ 0 := by
  obtain ⟨-, -, hok, hoptional, -, -, hcli⟩ := read_eq_ok.mp hread
  obtain ⟨d, hget, hrva, -⟩ := directory?_isSome.mp hcli
  have hdirectory : PeHeaders.directory? file.optional 14 = some d := by
    rw [PeHeaders.directory?, show file.optional.directories[14]? = some d from hget]
    simp [hrva]
  rw [PeHeaders.directoriesOk, hoptional] at hok
  simp only [hdirectory, Option.all_some, Bool.and_eq_true] at hok
  have hfound := hok.2
  unfold PeHeaders.cliDirectoryOk at hfound
  split at hfound
  · cases hfound
  rename_i offset hfind
  obtain ⟨-, s, hs, -⟩ := PeHeaders.find_eq_some.mp hfind
  have htest := List.find?_some hs
  simp only [Bool.and_eq_true, decide_eq_true_eq] at htest
  refine ⟨s, List.mem_of_find?_eq_some hs, fun hzero => ?_⟩
  rw [PeHeaders.reach, if_pos hzero] at htest
  omega

lemma headersSize_le (hread : read data = .ok file) (hsections : file.SectionsFit) :
    file.headersSize ≤ file.data.size := by
  obtain ⟨s, hs, hraw⟩ := exists_section hread
  obtain ⟨hle, hend⟩ := hsections s hs hraw
  rw [Section.rawEnd, ← Section.rawStart] at hend
  omega

end PeFile

namespace LayoutPlan

open Bytes

variable {file : PeFile} {plan : LayoutPlan} {added : MetaSection} {touched : Nat → Prop}
  {data out : Bytes} {s : Section} {rva o : Nat} {pushed : List (UInt32 × Bytes)}

/-- The output as it is read. -/
def newFile (plan : LayoutPlan) (file : PeFile) (added : MetaSection) (out : Bytes) : PeFile :=
  ⟨out, plan.newHeaders file added, plan.newOptional file⟩

lemma newFile_sections : (plan.newFile file added out).sections =
    file.sections.map plan.movedSection ++ [plan.addedSection file added] := rfl

lemma sectionOf?_moved (hs : file.sectionOf? rva = some s) :
    (plan.newFile file added out).sectionOf? rva = some (plan.movedSection s) := by
  rw [PeFile.sectionOf?, newFile_sections, List.find?_append, List.find?_map]
  change ((file.sectionOf? rva).map plan.movedSection).or _ = _
  rw [hs]
  rfl

lemma newDirectories_getElem? {i : Nat} (hi : i ≠ PeFile.certificateDirectory) :
    (newDirectories file)[i]? = file.optional.directories[i]? := by
  unfold newDirectories
  split
  · exact List.getElem?_set_ne hi.symm
  · rfl

lemma newFile_directory? {i : Nat} (hi : i ≠ PeFile.certificateDirectory) :
    (plan.newFile file added out).directory? i = file.directory? i := by
  rw [PeFile.directory?, PeFile.directory?]
  change ((newDirectories file)[i]?).filter _ = _
  rw [newDirectories_getElem? hi]

lemma newFile_cli : (plan.newFile file added out).cli = file.cli := by
  rw [PeFile.cli, PeFile.cli, newFile_directory? (by decide)]

lemma length_newDirectories : (newDirectories file).length = file.optional.directories.length := by
  unfold newDirectories
  split
  · exact List.length_set ..
  · rfl

/-- A file and a plan for it whose outcome can be addressed: its sections and its size can be
counted. -/
structure Addressable (file : PeFile) (plan : LayoutPlan) (added : MetaSection) : Prop where
  read : PeFile.read file.data = .ok file
  headers : HeadersFit file
  sections : file.SectionsFit
  planned : Planned file plan
  rva : added.rva = plan.sectionRva
  count : file.sections.length + 1 < 2 ^ 16
  size : plan.sectionStart + rawSize file added < 2 ^ 32

/-- An output that reads. -/
structure Placed (file : PeFile) (plan : LayoutPlan) (added : MetaSection) (touched : Nat → Prop)
    (out : Bytes) : Prop extends Addressable file plan added where
  laid : Laid file plan added touched out

lemma fileAlignment_pos (h : PeFile.read data = .ok file) : 0 < file.fileAlignment :=
  Nat.pos_of_ne_zero (PeFile.read_eq_ok.mp h).2.2.2.2.1

namespace Addressable

variable (h : Addressable file plan added)

include h

lemma align : 0 < file.fileAlignment := fileAlignment_pos h.read

lemma kept_le : plan.kept + plan.growth ≤ plan.sectionStart := h.planned.kept_le_start h.align

lemma le_rawSize : added.data.size ≤ rawSize file added := LayoutPlan.le_rawSize h.align

lemma room : LayoutPlan.slot file + 40 ≤ file.headersSize + plan.growth := h.planned.room

lemma headersSize_le : file.headersSize ≤ plan.kept := by
  rw [← h.planned.oldHeaders]
  exact h.planned.oldHeaders_le h.headers.size

lemma shift_of_data (hle : file.headersSize ≤ o) : plan.shift o = o + plan.growth :=
  shift_of_le (by rw [h.planned.oldHeaders]; exact hle)

/-- Data of the input's sections stays. -/
lemma rawEnd_le_kept (hs : s ∈ file.sections) (hraw : s.rawSize ≠ 0) :
    file.headersSize ≤ s.rawStart ∧ s.rawEnd ≤ plan.kept := by
  have := PeFile.rawEnd_le_endOfSections hs
  have := h.sections s hs hraw
  rw [h.planned.kept]
  omega

lemma offset_lt_kept (hleads : file.Leads s rva o) :
    file.headersSize ≤ o ∧ o < plan.kept := by
  obtain ⟨-, -, hlt, rfl⟩ := PeFile.leads_iff.mp hleads
  obtain ⟨hle, hend⟩ := h.rawEnd_le_kept hleads.mem hleads.rawSize_ne
  rw [Section.rawEnd] at hend
  rw [Section.rawStart] at hle ⊢
  omega

lemma rawStart_moved (hs : s ∈ file.sections) (hraw : s.rawSize ≠ 0) :
    (plan.movedSection s).rawStart = s.rawStart + plan.growth := by
  obtain ⟨hle, hend⟩ := h.rawEnd_le_kept hs hraw
  have := h.headers.table_le
  have := h.headers.table
  have hkept := h.kept_le
  have hstart := h.size
  have hmoved : plan.moved s.rawStart = s.rawStart + plan.growth := by
    rw [moved, if_neg (by omega), h.shift_of_data hle]
  rw [Section.rawEnd, ← Section.rawStart] at hend
  rw [Section.rawStart, movedSection, hmoved]
  exact UInt32.toNat_ofNat_of_lt' (by rw [UInt32.size]; omega)

lemma rawStart_added : (plan.addedSection file added).rawStart = plan.sectionStart := by
  have := h.size
  exact UInt32.toNat_ofNat_of_lt' (by rw [UInt32.size]; omega)

lemma rawSize_added : (plan.addedSection file added).rawSize.toNat = rawSize file added := by
  have := h.size
  exact UInt32.toNat_ofNat_of_lt' (by rw [UInt32.size]; omega)

lemma virtualSize_added : (plan.addedSection file added).virtualSize.toNat = added.data.size := by
  have := h.size
  have := h.le_rawSize
  exact UInt32.toNat_ofNat_of_lt' (by rw [UInt32.size]; omega)

/-- The added section lies behind all others. -/
lemma extent_le_rva (hs : s ∈ file.sections) : s.start + s.extent ≤ added.rva.toNat := by
  have hle := PeFile.extent_le_imageEnd hs
  rw [h.rva, h.planned.rva]
  have halign : 0 < file.sectionAlignment :=
    Nat.pos_of_ne_zero (PeFile.read_eq_ok.mp h.read).2.2.2.2.2.1
  exact hle.trans (le_alignUp _ halign)

/-- An address of the input's data leads to where that data has been moved. -/
theorem leads_moved (hleads : file.Leads s rva o) :
    (plan.newFile file added out).Leads (plan.movedSection s) rva (plan.shift o) := by
  have hle := (h.offset_lt_kept hleads).1
  obtain ⟨hs, hrva, hlt, rfl⟩ := PeFile.leads_iff.mp hleads
  refine PeFile.leads_iff.mpr ⟨sectionOf?_moved hs, hrva, hlt, ?_⟩
  rw [h.shift_of_data hle, h.rawStart_moved hleads.mem hleads.rawSize_ne]
  change _ = s.rawStart + plan.growth + (rva - s.start)
  omega

/-- An address of the added section leads to its data. -/
theorem leads_added (hle : added.rva.toNat ≤ rva)
    (hlt : rva < added.rva.toNat + rawSize file added) (hrva : rva < 2 ^ 32) :
    (plan.newFile file added out).Leads (plan.addedSection file added) rva
      (plan.sectionStart + (rva - added.rva.toNat)) := by
  have hstart : (plan.addedSection file added).start = added.rva.toNat := rfl
  refine PeFile.leads_iff.mpr ⟨?_, hrva, ?_, ?_⟩
  · rw [PeFile.sectionOf?, newFile_sections, List.find?_append, List.find?_eq_none.mpr]
    · rw [Option.none_or, List.find?_singleton, if_pos]
      have := h.rawSize_added
      refine decide_eq_true ⟨hle, ?_⟩
      rw [hstart, Section.extent]
      omega
    · intro s hs hcontains
      obtain ⟨old, hold, rfl⟩ := List.mem_map.mp hs
      have hbelow := h.extent_le_rva hold
      have hcontains' : old.Contains rva := of_decide_eq_true hcontains
      obtain ⟨-, hup⟩ := hcontains'
      omega
  · rw [hstart, h.rawSize_added]
    omega
  · rw [hstart, h.rawStart_added]

lemma rva_pos : 0 < plan.sectionRva.toNat := by
  obtain ⟨s, hs, hraw⟩ := PeFile.exists_section h.read
  have hextent := h.extent_le_rva hs
  have hpos : s.rawSize.toNat ≠ 0 := fun h => hraw (UInt32.toNat_inj.mp h)
  rw [Section.extent, h.rva] at hextent
  omega

end Addressable

namespace Placed

variable (h : Placed file plan added touched out)

include h

/-- The headers read as laid out, and nothing else is read from the output. -/
theorem read_headers : PeHeaders.read out = some (plan.newHeaders file added) := by
  have hroom := h.room
  have hkept := h.kept_le
  have hheaders := h.headersSize_le
  have hsize := h.laid.size
  obtain ⟨-, hread, -, hoptional, -⟩ := PeFile.read_eq_ok.mp h.read
  exact h.laid.read_headers h.headers (by omega) h.count hoptional hread

theorem eq_newFile {after : PeFile} (hafter : PeFile.read out = .ok after) :
    after = plan.newFile file added out := by
  obtain ⟨hdata, hread, -, hoptional, -⟩ := PeFile.read_eq_ok.mp hafter
  have hheaders : plan.newHeaders file added = after.headers :=
    Option.some.inj (h.read_headers.symm.trans hread)
  rw [← hheaders] at hoptional
  have hoptional' : plan.newOptional file = after.optional := Option.some.inj hoptional
  cases after
  simp only at hdata hheaders hoptional'
  rw [newFile, hdata, hheaders, hoptional']

/-- Where the bytes that stay have not been written over they are the input's. -/
lemma getElem?_moved (hleads : file.Leads s rva o) (hfree : ¬ touched (plan.shift o)) :
    out[plan.shift o]? = file.data[o]? :=
  h.laid.kept o (h.offset_lt_kept hleads).1 (h.offset_lt_kept hleads).2 hfree

end Placed

end LayoutPlan

end CliImage
