import CliImage.Proofs.Pe.Headers
import CliImage.Proofs.Bytes

/-! Addresses in the data of a section: where no two sections share a page both ways of looking them
up lead to the same place in the file. -/

namespace CliImage

lemma alignUp_mono {value value' : Nat} (h : value ≤ value') (alignment : Nat) :
    alignUp value alignment ≤ alignUp value' alignment :=
  Nat.mul_le_mul_right _ (Nat.div_le_div_right (by omega))

/-- The first item that passes a test, where no other one does. -/
lemma find?_of_pairwise {α : Type} {p : α → Bool} {xs : List α} {x : α} (hx : x ∈ xs)
    (hp : p x = true) (hapart : xs.Pairwise fun a b => ¬ (p a = true ∧ p b = true)) :
    xs.find? p = some x := by
  obtain ⟨front, back, rfl⟩ := List.append_of_mem hx
  refine List.find?_eq_some_iff_append.mpr ⟨hp, front, back, rfl, fun a ha => ?_⟩
  have hfront := (List.pairwise_append.mp hapart).2.2 a ha x (List.mem_cons_self ..)
  simpa using fun hpa => hfront ⟨hpa, hp⟩

namespace Section

/-- The addresses on the pages that a section takes. -/
def Reaches (s : Section) (rva : Nat) : Prop :=
  s.start ≤ rva ∧ rva < s.start + alignUp s.extent 0x1000

instance (s : Section) (rva : Nat) : Decidable (s.Reaches rva) :=
  inferInstanceAs (Decidable (_ ∧ _))

/-- The addresses that the section has data for in the file. -/
def Holds (s : Section) (rva : Nat) : Prop := s.start ≤ rva ∧ rva < s.start + s.rawSize.toNat

variable {s : Section} {rva : Nat}

lemma rawSize_le_extent (s : Section) : s.rawSize.toNat ≤ s.extent := Nat.le_max_right ..

lemma Contains.reaches (h : s.Contains rva) : s.Reaches rva :=
  ⟨h.1, h.2.trans_le (Nat.add_le_add_left (le_alignUp _ (by decide)) _)⟩

lemma Holds.contains (h : s.Holds rva) : s.Contains rva :=
  ⟨h.1, h.2.trans_le (Nat.add_le_add_left s.rawSize_le_extent _)⟩

end Section

namespace PeHeaders

variable {h : PeHeaders} {o : OptionalHeader} {s : Section} {rva found : Nat}

lemma reach_le (s : Section) (fileAlignment : Nat) :
    reach s fileAlignment ≤ alignUp s.extent 0x1000 := by
  have hraw := alignUp_mono s.rawSize_le_extent 0x1000
  unfold reach
  split
  · exact Nat.zero_le _
  · simp only
    split <;> omega

/-- Data that no smaller virtual size cuts off is reached. -/
lemma lt_reach {fileAlignment offset : Nat} (halign : 0 < fileAlignment)
    (hraw : offset < s.rawSize.toNat)
    (hvirtual : s.virtualSize = 0 ∨ offset < alignUp s.virtualSize.toNat 0x1000) :
    offset < reach s fileAlignment := by
  have hpage := le_alignUp s.rawSize.toNat (show 0 < 0x1000 by decide)
  have hend := le_alignUp s.rawEnd halign
  have hne : s.rawSize ≠ 0 := by
    rintro hzero
    rw [hzero] at hraw
    exact absurd hraw (Nat.not_lt_zero _)
  rw [Section.rawEnd] at hend
  rw [reach, if_neg hne]
  simp only [Section.rawEnd, Section.rawStart]
  split
  · omega
  · have := hvirtual.resolve_left ‹_›
    omega

lemma isPowerOfTwo_pos {n : Nat} (h : isPowerOfTwo n = true) : 0 < n := by
  rw [isPowerOfTwo, Bool.and_eq_true, bne_iff_ne] at h
  omega

lemma find_eq_some : find h o rva = some found ↔ isPowerOfTwo o.fileAlignment = true ∧
    ∃ s, (h.sections.find? fun s => s.start ≤ rva && rva < s.start + reach s o.fileAlignment) =
      some s ∧ found = s.rawStart + rva - s.start := by
  unfold find
  split
  · rename_i hpower
    simp only [Option.map_eq_some_iff, hpower, true_and, eq_comm (b := found)]
  · rename_i hpower
    simp [hpower]

/-- No two sections share a page. -/
def Apart (sections : List Section) : Prop :=
  sections.Pairwise fun s t => ∀ rva, s.Reaches rva → ¬ t.Reaches rva

lemma find?_of_apart {sections : List Section} (hapart : Apart sections) {p : Section → Bool}
    (hp : ∀ s, p s = true → s.Reaches rva) (hs : s ∈ sections) (hps : p s = true) :
    sections.find? p = some s :=
  find?_of_pairwise hs hps (hapart.imp fun hab h => hab rva (hp _ h.1) (hp _ h.2))

lemma eq_of_reaches {sections : List Section} (hapart : Apart sections) {t : Section}
    (hs : s ∈ sections) (ht : t ∈ sections) (hreach : s.Reaches rva) (hreach' : t.Reaches rva) :
    t = s := by
  have hfind {u : Section} (hu : u ∈ sections) (h : u.Reaches rva) :
      sections.find? (fun u => decide (u.Reaches rva)) = some u :=
    find?_of_apart hapart (fun _ => of_decide_eq_true) hu (decide_eq_true h)
  exact Option.some.inj ((hfind ht hreach').symm.trans (hfind hs hreach))

lemma reaches_of_reach {fileAlignment : Nat}
    (h : (decide (s.start ≤ rva) && decide (rva < s.start + reach s fileAlignment)) = true) :
    s.Reaches rva := by
  simp only [Bool.and_eq_true, decide_eq_true_eq] at h
  exact ⟨h.1, h.2.trans_le (Nat.add_le_add_left (reach_le ..) _)⟩

/-- An address is found in the section that has data for it, unless a smaller virtual size cuts it
off. -/
lemma find_of_holds (hapart : Apart h.sections) (hs : s ∈ h.sections) (hholds : s.Holds rva) :
    find h o rva = some found ↔ isPowerOfTwo o.fileAlignment = true ∧
      (s.virtualSize = 0 ∨ rva - s.start < alignUp s.virtualSize.toNat 0x1000) ∧
        found = s.rawStart + (rva - s.start) := by
  have hreaches := hholds.contains.reaches
  obtain ⟨hle, hlt⟩ := hholds
  rw [find_eq_some]
  refine and_congr_right fun hpower => ?_
  have halign := isPowerOfTwo_pos hpower
  constructor
  · rintro ⟨t, hfind, rfl⟩
    have htest := List.find?_some hfind
    have ht := List.mem_of_find?_eq_some hfind
    obtain rfl : t = s := eq_of_reaches hapart hs ht hreaches (reaches_of_reach htest)
    simp only [Bool.and_eq_true, decide_eq_true_eq] at htest
    refine ⟨?_, by omega⟩
    by_contra hcut
    rw [not_or] at hcut
    have hreach : reach t o.fileAlignment ≤ alignUp t.virtualSize.toNat 0x1000 := by
      unfold reach
      split
      · exact Nat.zero_le _
      · simp only [if_neg hcut.1]
        omega
    omega
  · rintro ⟨hvirtual, rfl⟩
    have := lt_reach halign (show rva - s.start < s.rawSize.toNat by omega) hvirtual
    refine ⟨s, find?_of_apart hapart (fun t => reaches_of_reach) hs ?_, by omega⟩
    simp only [Bool.and_eq_true, decide_eq_true_eq]
    omega

end PeHeaders

namespace PeFile

variable {file : PeFile} {s : Section} {rva o : Nat}

/-- An address that leads into the data of a section. -/
def Leads (file : PeFile) (s : Section) (rva o : Nat) : Prop :=
  file.sectionOf? rva = some s ∧ file.offsetOf rva = .ok o

lemma leads_iff : file.Leads s rva o ↔ file.sectionOf? rva = some s ∧ rva < 2 ^ 32 ∧
    rva - s.start < s.rawSize.toNat ∧ o = s.rawStart + (rva - s.start) := by
  refine and_congr_right fun hs => ?_
  rw [offsetOf, hs]
  simp only
  split
  · simp only [reduceCtorEq, false_iff]
    omega
  · split
    · rw [Except.ok.injEq, eq_comm]
      omega
    · simp only [reduceCtorEq, false_iff]
      omega

lemma Leads.mem (h : file.Leads s rva o) : s ∈ file.sections := List.mem_of_find?_eq_some h.1

lemma contains_of_sectionOf? (h : file.sectionOf? rva = some s) : s.Contains rva := by
  rw [sectionOf?] at h
  have htest := List.find?_some h
  exact of_decide_eq_true htest

lemma Leads.rawSize_ne (h : file.Leads s rva o) : s.rawSize ≠ 0 := by
  obtain ⟨-, -, hlt, -⟩ := leads_iff.mp h
  intro hzero
  rw [hzero] at hlt
  exact absurd hlt (Nat.not_lt_zero _)

lemma offsetOf_eq_ok (h : file.offsetOf rva = .ok o) :
    (∃ s, file.Leads s rva o) ∨ file.sectionOf? rva = none ∧ rva < file.headersSize ∧ o = rva := by
  cases hs : file.sectionOf? rva with
  | some s => exact .inl ⟨s, hs, h⟩
  | none =>
    rw [offsetOf, hs] at h
    simp only at h
    split at h
    · cases h
    · split at h
      · cases h
        exact .inr ⟨rfl, ‹_›, rfl⟩
      · cases h

lemma sectionOf?_of_holds (hapart : PeHeaders.Apart file.sections) (hs : s ∈ file.sections)
    (h : s.Holds rva) : file.sectionOf? rva = some s :=
  PeHeaders.find?_of_apart hapart
    (fun _ ht => Section.Contains.reaches (of_decide_eq_true ht)) hs (decide_eq_true h.contains)

lemma offsetOf_of_holds (hapart : PeHeaders.Apart file.sections) (hs : s ∈ file.sections)
    (h : s.Holds rva) (hrva : rva < 2 ^ 32) :
    file.offsetOf rva = .ok (s.rawStart + (rva - s.start)) := by
  have := h.1
  have := h.2
  exact (leads_iff.mpr ⟨sectionOf?_of_holds hapart hs h, hrva, by omega, rfl⟩).2

lemma sectionEnd_of_holds (hapart : PeHeaders.Apart file.sections) (hs : s ∈ file.sections)
    (h : s.Holds rva) : file.sectionEnd rva = s.rawEnd := by
  rw [sectionEnd, sectionOf?_of_holds hapart hs h]

end PeFile

end CliImage
