import CliImage.Proofs.Pe.Address
import CliImage.Proofs.Result

/-! Where sections are apart, in memory and in the file, the two ways between addresses and places in
the file undo each other, and a piece of memory is read as it lies in the file. -/

namespace CliImage

namespace Section

/-- The places in the file that hold the section's data. -/
def Stores (s : Section) (offset : Nat) : Prop := s.rawStart ≤ offset ∧ offset < s.rawEnd

lemma stores_add {s : Section} {k : Nat} : s.Stores (s.rawStart + k) ↔ k < s.rawSize.toNat := by
  simp only [Stores, rawEnd, rawStart]
  omega

end Section

namespace PeFile

variable {file : PeFile} {s : Section} {rva offset k : Nat} {w : Window}

lemma exists_of_rvaOf (h : file.rvaOf offset = .ok rva) : ∃ s ∈ file.sections, s.Stores offset := by
  unfold rvaOf at h
  split at h
  · rename_i s hs
    have htest := List.find?_some hs
    simp only [Bool.and_eq_true, decide_eq_true_eq] at htest
    exact ⟨s, List.mem_of_find?_eq_some hs, htest⟩
  · cases h

lemma bounds_of_tail (h : file.tail rva = .ok w) : file.offsetOf rva = .ok w.start ∧
    w.data = file.data ∧ w.stop = max w.start (min (file.sectionEnd rva) file.data.size) := by
  obtain ⟨offset, hoffset, h⟩ := Result.bind_eq_ok.mp h
  split at h
  · cases h
    exact ⟨hoffset, rfl, rfl⟩
  · cases h

lemma slice_of_tail (h : file.tail rva = .ok w) (hk : k ≤ w.size) :
    file.slice rva k = .ok (w.toBytes.extract 0 k) := by
  obtain ⟨hoffset, hdata, -⟩ := bounds_of_tail h
  have hstart := w.start_le_stop
  have hstop := w.stop_le_size
  rw [Window.size] at hk
  rw [slice, hoffset, Result.ok_bind, Bytes.slice, if_pos (by rw [← hdata]; omega),
    w.extract_toBytes hk, Window.extract, hdata, Nat.add_zero]

/-- The sections end within the addresses that there are, and no two of them share an address or a
place in the file. -/
structure SectionsApart (file : PeFile) : Prop where
  end_le : ∀ s ∈ file.sections, s.start + s.extent ≤ 2 ^ 32
  addresses : file.sections.Pairwise fun s t => ∀ rva, s.Contains rva → ¬ t.Contains rva
  places : file.sections.Pairwise fun s t => ∀ offset, s.Stores offset → ¬ t.Stores offset

namespace SectionsApart

variable (h : file.SectionsApart)

include h

lemma sectionOf?_eq (hs : s ∈ file.sections) (hrva : s.Contains rva) :
    file.sectionOf? rva = some s := by
  apply find?_of_pairwise hs (decide_eq_true hrva)
  exact h.addresses.imp fun hapart hboth =>
    hapart rva (of_decide_eq_true hboth.1) (of_decide_eq_true hboth.2)

lemma leads_add (hs : s ∈ file.sections) (hk : k < s.rawSize.toNat) :
    file.Leads s (s.start + k) (s.rawStart + k) := by
  have hholds : s.Holds (s.start + k) := ⟨by omega, by omega⟩
  have hcontains := hholds.contains
  have hlt : s.start + k < 2 ^ 32 := hcontains.2.trans_le (h.end_le s hs)
  exact leads_iff.mpr ⟨h.sectionOf?_eq hs hcontains, hlt, by omega, by omega⟩

lemma rvaOf_add (hs : s ∈ file.sections) (hk : k < s.rawSize.toNat) :
    file.rvaOf (s.rawStart + k) = .ok (s.start + k) := by
  have hfind : file.sections.find? (fun t => t.rawStart ≤ s.rawStart + k &&
      s.rawStart + k < t.rawEnd) = some s := by
    apply find?_of_pairwise hs
    · simpa [Section.Stores] using Section.stores_add.mpr hk
    · refine h.places.imp fun hapart hboth => ?_
      simp only [Bool.and_eq_true, decide_eq_true_eq] at hboth
      exact hapart _ hboth.1 hboth.2
  rw [rvaOf, hfind]
  simp only [Nat.add_sub_cancel_left]
  rw [Nat.add_comm]

lemma rvaOf_of_offsetOf (hs : s ∈ file.sections) (hrva : s.Contains rva)
    (hoffset : file.offsetOf rva = .ok offset) : file.rvaOf offset = .ok rva := by
  obtain ⟨-, -, hk, rfl⟩ := leads_iff.mp ⟨h.sectionOf?_eq hs hrva, hoffset⟩
  rw [h.rvaOf_add hs hk, Nat.add_sub_cancel' hrva.1]

lemma offsetOf_of_rvaOf (hrva : file.rvaOf offset = .ok rva) : file.offsetOf rva = .ok offset := by
  obtain ⟨s, hs, hstores⟩ := exists_of_rvaOf hrva
  obtain ⟨k, rfl⟩ := Nat.exists_eq_add_of_le hstores.1
  have hk := Section.stores_add.mp hstores
  rw [h.rvaOf_add hs hk] at hrva
  cases hrva
  exact (h.leads_add hs hk).2

lemma sectionEnd_eq (hs : s ∈ file.sections) (hrva : s.Contains rva) :
    file.sectionEnd rva = s.rawEnd := by
  rw [sectionEnd, h.sectionOf?_eq hs hrva]

-- the section ends behind the whole tail, so that every address in it is one of that section
lemma offsetOf_of_tail (hs : s ∈ file.sections) (hrva : s.Contains rva)
    (htail : file.tail rva = .ok w) (hk : k < w.size) :
    file.offsetOf (rva + k) = .ok (w.start + k) := by
  obtain ⟨hoffset, -, hstop⟩ := bounds_of_tail htail
  obtain ⟨-, -, hraw, hstart⟩ := leads_iff.mp ⟨h.sectionOf?_eq hs hrva, hoffset⟩
  rw [h.sectionEnd_eq hs hrva, Section.rawEnd, ← Section.rawStart] at hstop
  rw [Window.size] at hk
  have hleads := h.leads_add hs (k := rva - s.start + k) (by omega)
  rw [← Nat.add_assoc, Nat.add_sub_cancel' hrva.1, ← Nat.add_assoc, ← hstart] at hleads
  exact hleads.2

end SectionsApart

/-- Addresses and places in the file tell of the same bytes, whichever way they are looked up. -/
structure Translates (file : PeFile) : Prop where
  data : ∀ s ∈ file.sections, ∀ k < s.rawSize.toNat,
    file.offsetOf (s.start + k) = .ok (s.rawStart + k) ∧
      file.rvaOf (s.rawStart + k) = .ok (s.start + k)
  rvaOf : ∀ s ∈ file.sections, ∀ rva, s.Contains rva → ∀ offset,
    file.offsetOf rva = .ok offset → file.rvaOf offset = .ok rva
  offsetOf : ∀ s ∈ file.sections, ∀ offset, s.Stores offset → ∀ rva,
    file.rvaOf offset = .ok rva → file.offsetOf rva = .ok offset
  tail : ∀ s ∈ file.sections, ∀ rva, s.Contains rva → ∀ w, file.tail rva = .ok w →
    ∃ offset, file.offsetOf rva = .ok offset ∧
      w.size = min s.rawEnd file.data.size - offset ∧
      (∀ k ≤ w.size, file.slice rva k = .ok (w.toBytes.extract 0 k)) ∧
      ∀ k < w.size, file.offsetOf (rva + k) = .ok (offset + k)

theorem translates_of_sectionsApart (h : file.SectionsApart) : file.Translates where
  data _ hs _ hk := ⟨(h.leads_add hs hk).2, h.rvaOf_add hs hk⟩
  rvaOf _ hs _ hrva _ hoffset := h.rvaOf_of_offsetOf hs hrva hoffset
  offsetOf _ _ _ _ _ hrva := h.offsetOf_of_rvaOf hrva
  tail s hs rva hrva w htail := by
    obtain ⟨hoffset, -, hstop⟩ := bounds_of_tail htail
    rw [h.sectionEnd_eq hs hrva] at hstop
    refine ⟨w.start, hoffset, ?_, fun k hk => slice_of_tail htail hk,
      fun k hk => h.offsetOf_of_tail hs hrva htail hk⟩
    rw [Window.size, hstop]
    omega

/-- Two sections that stand in the file the other way round. One has room in memory for more than its
data, right up to the other one; that one's data is longer than its memory, and than the file. -/
def swappedSections : Bytes := #[
  77, 90, 0, 0, 0, 0, 0, 0, 0, 0, 0, 0, 0, 0, 0, 0, 0, 0, 0, 0, 0, 0, 0, 0, 0, 0, 0, 0, 0, 0, 0, 0,
  0, 0, 0, 0, 0, 0, 0, 0, 0, 0, 0, 0, 0, 0, 0, 0, 0, 0, 0, 0, 0, 0, 0, 0, 0, 0, 0, 0, 64, 0, 0, 0,
  80, 69, 0, 0, 76, 1, 2, 0, 0, 0, 0, 0, 0, 0, 0, 0, 0, 0, 0, 0, 216, 0, 2, 33, 11, 1, 0, 0, 0, 0,
  0, 0, 0, 0, 0, 0, 0, 0, 0, 0, 0, 0, 0, 0, 0, 0, 0, 0, 0, 0, 0, 0, 0, 0, 0, 0, 0, 16, 0, 0, 1, 0,
  0, 0, 0, 0, 0, 0, 0, 0, 0, 0, 0, 0, 0, 0, 0, 0, 0, 0, 0, 48, 0, 0, 128, 1, 0, 0, 0, 0, 0, 0, 0, 0,
  0, 0, 0, 0, 0, 0, 0, 0, 0, 0, 0, 0, 0, 0, 0, 0, 0, 0, 0, 0, 0, 0, 15, 0, 0, 0, 0, 0, 0, 0, 0, 0,
  0, 0, 0, 0, 0, 0, 0, 0, 0, 0, 0, 0, 0, 0, 0, 0, 0, 0, 0, 0, 0, 0, 0, 0, 0, 0, 0, 0, 0, 0, 0, 0, 0,
  0, 0, 0, 0, 0, 0, 0, 0, 0, 0, 0, 0, 0, 0, 0, 0, 0, 0, 0, 0, 0, 0, 0, 0, 0, 0, 0, 0, 0, 0, 0, 0, 0,
  0, 0, 0, 0, 0, 0, 0, 0, 0, 0, 0, 0, 0, 0, 0, 0, 0, 0, 0, 0, 0, 0, 0, 0, 0, 0, 0, 0, 0, 0, 0, 0, 0,
  0, 0, 0, 0, 0, 0, 0, 0, 32, 0, 0, 72, 0, 0, 0, 46, 116, 101, 120, 116, 0, 0, 0, 96, 0, 0, 0, 0,
  32, 0, 0, 112, 0, 0, 0, 144, 1, 0, 0, 0, 0, 0, 0, 0, 0, 0, 0, 0, 0, 0, 0, 0, 0, 0, 0, 46, 100, 97,
  116, 97, 0, 0, 0, 0, 16, 0, 0, 0, 16, 0, 0, 16, 0, 0, 0, 128, 1, 0, 0, 0, 0, 0, 0, 0, 0, 0, 0, 0,
  0, 0, 0, 0, 0, 0, 0, 1, 2, 3, 4, 5, 6, 7, 8, 9, 10, 11, 12, 13, 14, 15, 16, 72, 0, 0, 0, 2, 0, 5,
  0, 72, 32, 0, 0, 24, 0, 0, 0, 1, 0, 0, 0, 0, 0, 0, 0, 0, 0, 0, 0, 0, 0, 0, 0, 0, 0, 0, 0, 0, 0, 0,
  0, 0, 0, 0, 0, 0, 0, 0, 0, 0, 0, 0, 0, 0, 0, 0, 0, 0, 0, 0, 0, 0, 0, 0, 0, 0, 0, 0, 0, 0, 0, 0, 0,
  66, 83, 74, 66, 1, 0, 1, 0, 0, 0, 0, 0, 4, 0, 0, 0, 118, 52, 0, 0, 0, 0, 0, 0]

theorem translates_swappedSections : ∃ file w, read swappedSections = .ok file ∧
    file.sections = [⟨".text", 0x60, 0x2000, 0x70, 0x190, 0⟩,
      ⟨".data", 0x1000, 0x1000, 0x10, 0x180, 0⟩] ∧
    file.SectionsApart ∧ file.tail 0x2050 = .ok w ∧ w.size = 16 ∧ file.Translates := by
  obtain ⟨file, hread, htest⟩ := Result.exists_of_holds (x := read swappedSections)
    (p := fun file => decide (file.sections = [⟨".text", 0x60, 0x2000, 0x70, 0x190, 0⟩,
      ⟨".data", 0x1000, 0x1000, 0x10, 0x180, 0⟩]) &&
      Result.holds (file.tail 0x2050) fun w => w.size == 16) (by decide +kernel)
  rw [Bool.and_eq_true, decide_eq_true_eq] at htest
  obtain ⟨hsections, htest⟩ := htest
  obtain ⟨w, htail, hsize⟩ := Result.exists_of_holds htest
  have hapart : file.SectionsApart := by
    refine ⟨?_, ?_, ?_⟩
    · rw [hsections]
      decide
    · rw [hsections, List.pairwise_pair]
      exact fun rva h h' => absurd (h.1.trans_lt h'.2) (by decide)
    · rw [hsections, List.pairwise_pair]
      exact fun offset h h' => absurd (h.1.trans_lt h'.2) (by decide)
  exact ⟨file, w, hread, hsections, hapart, htail, beq_iff_eq.mp hsize,
    translates_of_sectionsApart hapart⟩

end PeFile

end CliImage
