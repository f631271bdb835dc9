import CliImage.Proofs.Layout.AddressSpace

/-! An output simulates the address space of its input: where headers grow data moves in the file,
and every address leads to the bytes that it led to before. -/

namespace CliImage

namespace PeFile

variable {file : PeFile} {data : Bytes} {entries : List DebugEntry} {e : DebugEntry} {d : Span}

/-- Every debug entry stands in the range that the debug directory names. -/
lemma debugEntry_within (h : file.debugEntries = .ok entries) (he : e ∈ entries) :
    ∃ d start, file.directory? debugDirectory = some d ∧ file.offsetOf d.rva.toNat = .ok start ∧
      start ≤ e.offset ∧ e.offset + DebugEntry.size ≤ start + d.size.toNat ∧
        start + d.size.toNat ≤ file.data.size := by
  unfold debugEntries at h
  split at h
  · cases h
    cases he
  · rename_i d hd
    obtain ⟨start, hstart, h⟩ := Result.bind_eq_ok.mp h
    obtain ⟨bytes, hbytes, h⟩ := Result.bind_eq_ok.mp h
    cases h
    unfold Bytes.slice at hbytes
    split at hbytes
    · rename_i hfit
      cases hbytes
      obtain ⟨i, hi, rfl⟩ := List.mem_map.mp he
      have hlt := List.mem_range.mp hi
      rw [Array.size_extract, Nat.lt_div_iff_mul_lt (by decide)] at hlt
      refine ⟨d, start, hd, hstart, Nat.le_add_right .., ?_, hfit⟩
      simp only [DebugEntry.readAt, DebugEntry.size] at hlt ⊢
      omega
    · cases hbytes

/-- A directory that is accepted begins in a section. -/
lemma exists_start_le (hread : read data = .ok file)
    (hd : file.directory? debugDirectory = some d) : ∃ s ∈ file.sections, s.start ≤ d.rva.toNat := by
  obtain ⟨-, -, hok, hoptional, -⟩ := read_eq_ok.mp hread
  obtain ⟨hget, hne⟩ := Option.filter_eq_some_iff.mp hd
  have hdirectory : PeHeaders.directory? file.optional 6 = some d := by
    refine Option.filter_eq_some_iff.mpr ⟨hget, ?_⟩
    simp only [decide_eq_true_eq] at hne ⊢
    exact .inl hne.1
  rw [PeHeaders.directoriesOk, hoptional] at hok
  simp only [hdirectory, Option.all_some, Bool.and_eq_true] at hok
  have hfound := hok.1.2
  unfold PeHeaders.debugDirectoryOk at hfound
  split at hfound
  · cases hfound
  rename_i offset hfind
  obtain ⟨-, s, hs, -⟩ := PeHeaders.find_eq_some.mp hfind
  have htest := List.find?_some hs
  simp only [Bool.and_eq_true, decide_eq_true_eq] at htest
  exact ⟨s, List.mem_of_find?_eq_some hs, htest.1⟩

end PeFile

namespace LayoutPlan

open Bytes

variable {file : PeFile} {plan : LayoutPlan} {added : MetaSection} {data out : Bytes}
  {pushed : List (UInt32 × Bytes)} {x : Nat}

/-- Where the headers grow, all debug pointers stand in what is kept of the file. -/
def DebugKept (file : PeFile) (plan : LayoutPlan) : Prop :=
  plan.grows = true → ∀ entries, file.debugEntries = .ok entries → ∀ e ∈ entries,
    e.pointerOffset + 4 ≤ plan.kept

/-- Debug pointers that move stand in the data of the input's sections. -/
lemma debugPointer_within (hread : PeFile.read data = .ok file) (hplan : Planned file plan)
    (hsections : file.SectionsFit) (hkept : DebugKept file plan) (hx : IsDebugPointer file plan x) :
    file.headersSize + plan.growth ≤ x ∧ x < plan.sectionStart := by
  obtain ⟨hgrows, entries, hentries, e, he, hx, hx'⟩ := hx
  obtain ⟨d, start, hd, hstart, hle, -⟩ := PeFile.debugEntry_within hentries he
  obtain ⟨s, hs, hfirst⟩ := PeFile.exists_start_le hread hd
  have hbelow := hplan.below (by rw [grows, decide_eq_true_eq] at hgrows; omega) s hs
  have hheaders : file.headersSize ≤ start := by
    rcases PeFile.offsetOf_eq_ok hstart with ⟨t, hleads⟩ | ⟨-, hlt, -⟩
    · obtain ⟨-, -, -, rfl⟩ := PeFile.leads_iff.mp hleads
      have := (hsections t hleads.mem hleads.rawSize_ne).1
      omega
    · omega
  have hend := hkept hgrows entries hentries e he
  have hlast := hplan.kept_le_start (fileAlignment_pos hread)
  have hold := hplan.oldHeaders
  rw [DebugEntry.pointerOffset] at hx hx' hend
  rw [shift_of_le (by omega)] at hx hx'
  omega

/-- How an output stands to the file that it was made from: all sections are found again with one
more behind them, and addresses lead to the same bytes or to what was pushed. -/
structure Simulates (file : PeFile) (plan : LayoutPlan) (added : MetaSection)
    (pushed : List (UInt32 × Bytes)) (after : PeFile) : Prop where
  sections : after.sections =
    file.sections.map plan.movedSection ++ [plan.addedSection file added]
  mapped : ∀ s rva o, file.Leads s rva o → plan.offset file rva = .ok (plan.shift o) ∧
    after.Leads (plan.movedSection s) rva (plan.shift o) ∧
      (¬ IsDebugPointer file plan (plan.shift o) → after.data[plan.shift o]? = file.data[o]?)
  pushed : ∀ p ∈ pushed, after.data.StandsAt (plan.sectionOffset p.1) p.2 ∧
    (p.2 ≠ #[] ∨ p.1.toNat < added.rva.toNat + rawSize file added →
      after.Leads (plan.addedSection file added) p.1.toNat (plan.sectionOffset p.1))
  apart : ∀ s ∈ file.sections.map plan.movedSection,
    s.start + s.extent ≤ (plan.addedSection file added).start ∧
      (s.rawSize ≠ 0 → s.rawEnd ≤ (plan.addedSection file added).rawStart)
  headers : plan.grows = true → ∀ s ∈ after.sections, after.headersSize ≤ s.start

lemma Placed.simulates (h : Placed file plan added (IsDebugPointer file plan) out)
    (hpushed : MetaSection.Pushed plan.sectionRva added pushed) :
    Simulates file plan added pushed (plan.newFile file added out) := by
  have hraw := h.le_rawSize
  have hend := h.size
  have hkept := h.kept_le
  have hheaders := h.headersSize_le
  refine ⟨rfl, fun s rva o hleads => ⟨?_, h.leads_moved hleads, h.getElem?_moved hleads⟩,
    fun p hp => ?_, fun s hs => ?_, fun hgrows s hs => ?_⟩
  · rw [offset, hleads.2]
    rfl
  · obtain ⟨hle, hstands⟩ := hpushed.standsAt hp
    have hsize := hstands.le_size
    refine ⟨h.laid.added.trans hstands, fun hp => ?_⟩
    rw [sectionOffset, ← h.rva] at *
    refine h.leads_added hle ?_ p.1.toNat_lt
    rcases hp with hne | hlt
    · have := Array.size_pos_iff.mpr hne
      omega
    · exact hlt
  · obtain ⟨old, hold, rfl⟩ := List.mem_map.mp hs
    have hbehind := h.extent_le_rva hold
    refine ⟨hbehind, fun hne => ?_⟩
    obtain ⟨-, hstop⟩ := h.rawEnd_le_kept hold hne
    rw [Section.rawEnd, ← Section.rawStart] at hstop ⊢
    rw [h.rawStart_moved hold hne, h.rawStart_added]
    change old.rawStart + plan.growth + old.rawSize.toNat ≤ _
    omega
  · have hgrowth : plan.growth ≠ 0 := by
      rw [grows, decide_eq_true_eq] at hgrows
      omega
    have hbelow := h.planned.below hgrowth
    change (file.headersSize + plan.growth) % 2 ^ 32 ≤ s.start
    rw [Nat.mod_eq_of_lt (by omega)]
    rcases List.mem_append.mp hs with hs | hs
    · obtain ⟨old, hold, rfl⟩ := List.mem_map.mp hs
      exact hbelow old hold
    · obtain rfl := List.mem_singleton.mp hs
      obtain ⟨first, hfirst, -⟩ := PeFile.exists_section h.read
      have hle := h.extent_le_rva hfirst
      have := hbelow first hfirst
      change _ ≤ added.rva.toNat
      omega

/-- The headers of this file have no room for another section. -/
def crowded : Bytes := #[
  77, 90, 0, 0, 0, 0, 0, 0, 0, 0, 0, 0, 0, 0, 0, 0, 0, 0, 0, 0, 0, 0, 0, 0, 0, 0, 0, 0, 0, 0, 0,
  0, 0, 0, 0, 0, 0, 0, 0, 0, 0, 0, 0, 0, 0, 0, 0, 0, 0, 0, 0, 0, 0, 0, 0, 0, 0, 0, 0, 0, 64, 0, 0,
  0, 80, 69, 0, 0, 76, 1, 1, 0, 0, 0, 0, 0, 0, 0, 0, 0, 0, 0, 0, 0, 216, 0, 2, 33, 11, 1, 0, 0, 0,
  0, 0, 0, 0, 0, 0, 0, 0, 0, 0, 0, 0, 0, 0, 0, 0, 0, 0, 0, 0, 0, 0, 0, 0, 0, 0, 0, 0, 16, 0, 0, 1,
  0, 0, 0, 0, 0, 0, 0, 0, 0, 0, 0, 0, 0, 0, 0, 0, 0, 0, 0, 0, 32, 0, 0, 88, 1, 0, 0, 0, 0, 0, 0,
  0, 0, 0, 0, 0, 0, 0, 0, 0, 0, 0, 0, 0, 0, 0, 0, 0, 0, 0, 0, 0, 0, 0, 0, 15, 0, 0, 0, 0, 0, 0, 0,
  0, 0, 0, 0, 0, 0, 0, 0, 0, 0, 0, 0, 0, 0, 0, 0, 0, 0, 0, 0, 0, 0, 0, 0, 0, 0, 0, 0, 0, 0, 0, 0,
  0, 0, 0, 0, 0, 0, 0, 0, 0, 0, 0, 0, 96, 16, 0, 0, 28, 0, 0, 0, 0, 0, 0, 0, 0, 0, 0, 0, 0, 0, 0,
  0, 0, 0, 0, 0, 0, 0, 0, 0, 0, 0, 0, 0, 0, 0, 0, 0, 0, 0, 0, 0, 0, 0, 0, 0, 0, 0, 0, 0, 0, 0, 0,
  0, 0, 0, 0, 0, 0, 0, 0, 0, 0, 0, 0, 0, 0, 16, 0, 0, 72, 0, 0, 0, 46, 116, 101, 120, 116, 0, 0,
  0, 124, 0, 0, 0, 0, 16, 0, 0, 124, 0, 0, 0, 88, 1, 0, 0, 0, 0, 0, 0, 0, 0, 0, 0, 0, 0, 0, 0, 32,
  0, 0, 96, 72, 0, 0, 0, 2, 0, 5, 0, 72, 16, 0, 0, 24, 0, 0, 0, 1, 0, 0, 0, 0, 0, 0, 0, 0, 0, 0,
  0, 0, 0, 0, 0, 0, 0, 0, 0, 0, 0, 0, 0, 0, 0, 0, 0, 0, 0, 0, 0, 0, 0, 0, 0, 0, 0, 0, 0, 0, 0, 0,
  0, 0, 0, 0, 0, 0, 0, 0, 0, 0, 0, 0, 0, 66, 83, 74, 66, 1, 0, 1, 0, 0, 0, 0, 0, 4, 0, 0, 0, 118,
  52, 0, 0, 0, 0, 0, 0, 0, 0, 0, 0, 0, 0, 0, 0, 0, 0, 0, 0, 0, 0, 0, 0, 0, 0, 0, 0, 0, 0, 0, 0, 0,
  0, 0, 0]

/-- The debug entry of this file runs on behind the section that it starts in. -/
def spilled : Bytes := #[
  77, 90, 0, 0, 0, 0, 0, 0, 0, 0, 0, 0, 0, 0, 0, 0, 0, 0, 0, 0, 0, 0, 0, 0, 0, 0, 0, 0, 0, 0, 0,
  0, 0, 0, 0, 0, 0, 0, 0, 0, 0, 0, 0, 0, 0, 0, 0, 0, 0, 0, 0, 0, 0, 0, 0, 0, 0, 0, 0, 0, 64, 0, 0,
  0, 80, 69, 0, 0, 76, 1, 1, 0, 0, 0, 0, 0, 0, 0, 0, 0, 0, 0, 0, 0, 216, 0, 2, 33, 11, 1, 0, 0, 0,
  0, 0, 0, 0, 0, 0, 0, 0, 0, 0, 0, 0, 0, 0, 0, 0, 0, 0, 0, 0, 0, 0, 0, 0, 0, 0, 0, 0, 16, 0, 0, 1,
  0, 0, 0, 0, 0, 0, 0, 0, 0, 0, 0, 0, 0, 0, 0, 0, 0, 0, 0, 0, 32, 0, 0, 88, 1, 0, 0, 0, 0, 0, 0,
  0, 0, 0, 0, 0, 0, 0, 0, 0, 0, 0, 0, 0, 0, 0, 0, 0, 0, 0, 0, 0, 0, 0, 0, 15, 0, 0, 0, 0, 0, 0, 0,
  0, 0, 0, 0, 0, 0, 0, 0, 0, 0, 0, 0, 0, 0, 0, 0, 0, 0, 0, 0, 0, 0, 0, 0, 0, 0, 0, 0, 0, 0, 0, 0,
  0, 0, 0, 0, 0, 0, 0, 0, 0, 0, 0, 0, 96, 16, 0, 0, 28, 0, 0, 0, 0, 0, 0, 0, 0, 0, 0, 0, 0, 0, 0,
  0, 0, 0, 0, 0, 0, 0, 0, 0, 0, 0, 0, 0, 0, 0, 0, 0, 0, 0, 0, 0, 0, 0, 0, 0, 0, 0, 0, 0, 0, 0, 0,
  0, 0, 0, 0, 0, 0, 0, 0, 0, 0, 0, 0, 0, 0, 16, 0, 0, 72, 0, 0, 0, 46, 116, 101, 120, 116, 0, 0,
  0, 120, 0, 0, 0, 0, 16, 0, 0, 120, 0, 0, 0, 88, 1, 0, 0, 0, 0, 0, 0, 0, 0, 0, 0, 0, 0, 0, 0, 32,
  0, 0, 96, 72, 0, 0, 0, 2, 0, 5, 0, 72, 16, 0, 0, 24, 0, 0, 0, 1, 0, 0, 0, 0, 0, 0, 0, 0, 0, 0,
  0, 0, 0, 0, 0, 0, 0, 0, 0, 0, 0, 0, 0, 0, 0, 0, 0, 0, 0, 0, 0, 0, 0, 0, 0, 0, 0, 0, 0, 0, 0, 0,
  0, 0, 0, 0, 0, 0, 0, 0, 0, 0, 0, 0, 0, 66, 83, 74, 66, 1, 0, 1, 0, 0, 0, 0, 0, 4, 0, 0, 0, 118,
  52, 0, 0, 0, 0, 0, 0, 0, 0, 0, 0, 0, 0, 0, 0, 0, 0, 0, 0, 0, 0, 0, 0, 0, 0, 0, 0, 0, 0, 0, 0, 0,
  0, 0, 0]

end LayoutPlan

end CliImage
