import CliImage.Proofs.Layout.Accepted
import Mathlib.Data.List.Find

/-! Where no two sections share a page the container finds in an output what it has found in the
input, also where the headers have grown. -/

namespace CliImage

open Bytes

namespace DebugEntry

variable (data : Bytes) (offset : Nat)

@[simp] lemma kind_readAt : (readAt data offset).kind.toNat = data.natAt (offset + 12) 4 :=
  UInt32.toNat_ofNat_of_lt' (natAt_lt ..)

@[simp] lemma dataSize_readAt : (readAt data offset).dataSize.toNat = data.natAt (offset + 16) 4 :=
  UInt32.toNat_ofNat_of_lt' (natAt_lt ..)

@[simp] lemma dataPointer_readAt :
    (readAt data offset).dataPointer.toNat = data.natAt (offset + 24) 4 :=
  UInt32.toNat_ofNat_of_lt' (natAt_lt ..)

end DebugEntry

namespace PeHeaders

variable {h : PeHeaders} {o : OptionalHeader} {data after : Bytes} {d : Span}
  {offset offset' count : Nat}

lemma exists_of_cliDirectoryOk (hok : h.cliDirectoryOk o data d = true) : ∃ start found,
    h.find o d.rva.toNat = some start ∧ h.find o (data.natAt (start + 8) 4) = some found ∧
      (Utf8.decode? (data.extract (found + 16)
        (found + 16 + data.natAt (found + 12) 4))).isSome := by
  unfold cliDirectoryOk at hok
  split at hok
  · cases hok
  rename_i start hstart
  rw [Bool.and_eq_true] at hok
  obtain ⟨-, hok⟩ := hok
  split at hok
  · cases hok
  rename_i found hfound
  simp only [Bool.and_eq_true] at hok
  exact ⟨start, found, hstart, hfound, hok.2⟩

lemma exists_of_debugDirectoryOk (hok : h.debugDirectoryOk o data d = true) : ∃ start,
    h.find o d.rva.toNat = some start ∧ debugEntriesOk data start (d.size.toNat / 28) = true := by
  unfold debugDirectoryOk at hok
  split at hok
  · cases hok
  rename_i start hstart
  rw [Bool.and_eq_true] at hok
  exact ⟨start, hstart, hok.2⟩

lemma ne_zero_of_codeViewOk {size : UInt32} {pointer : Nat}
    (h : codeViewOk data size.toNat pointer = true) : size ≠ 0 := by
  rintro rfl
  cases h

/-- Of the entries of a directory the first one of a kind tells whether they are accepted. -/
lemma debugEntriesOk_iff : debugEntriesOk data offset count = true ↔
    (∀ i, (List.range count).find? (fun i =>
        (DebugEntry.readAt data (offset + 28 * i)).kind == DebugEntry.codeView) = some i →
      codeViewOk data (DebugEntry.readAt data (offset + 28 * i)).dataSize.toNat
        (DebugEntry.readAt data (offset + 28 * i)).dataPointer.toNat = true) ∧
    ∀ i, (List.range count).find? (fun i =>
        (DebugEntry.readAt data (offset + 28 * i)).kind == 16) = some i →
      reproducibleOk data (DebugEntry.readAt data (offset + 28 * i)).dataSize.toNat
        (DebugEntry.readAt data (offset + 28 * i)).dataPointer.toNat = true := by
  have hkind (kind : UInt32) (i : Nat) : (data.natAt (offset + 28 * i + 12) 4 == kind.toNat) =
      ((DebugEntry.readAt data (offset + 28 * i)).kind == kind) := by
    rw [Bool.eq_iff_iff, beq_iff_eq, beq_iff_eq, ← UInt32.toNat_inj, DebugEntry.kind_readAt]
  have hview := hkind DebugEntry.codeView
  have hreproducible := hkind 16
  simp only [show DebugEntry.codeView.toNat = 2 from rfl, show (16 : UInt32).toNat = 16 from rfl]
    at hview hreproducible
  unfold debugEntriesOk
  simp only [List.find?_map, Function.comp_def, hview, hreproducible, Bool.and_eq_true,
    DebugEntry.dataSize_readAt, DebugEntry.dataPointer_readAt]
  constructor
  · rintro ⟨hok, hok'⟩
    exact ⟨fun i hi => by rwa [hi] at hok, fun i hi => by rwa [hi] at hok'⟩
  · rintro ⟨hok, hok'⟩
    constructor
    · split
      · rename_i e he
        obtain ⟨i, hi, rfl⟩ := Option.map_eq_some_iff.mp he
        exact hok i hi
      · rfl
    · split
      · rename_i e he
        obtain ⟨i, hi, rfl⟩ := Option.map_eq_some_iff.mp he
        exact hok' i hi
      · rfl

/-- Entries of the same kinds are accepted if what they point at stays acceptable. -/
lemma debugEntriesOk_congr
    (hkind : ∀ i < count, (DebugEntry.readAt after (offset' + 28 * i)).kind =
      (DebugEntry.readAt data (offset + 28 * i)).kind)
    (hview : ∀ i < count, (DebugEntry.readAt data (offset + 28 * i)).kind = DebugEntry.codeView →
      codeViewOk data (DebugEntry.readAt data (offset + 28 * i)).dataSize.toNat
          (DebugEntry.readAt data (offset + 28 * i)).dataPointer.toNat = true →
        codeViewOk after (DebugEntry.readAt after (offset' + 28 * i)).dataSize.toNat
          (DebugEntry.readAt after (offset' + 28 * i)).dataPointer.toNat = true)
    (hreproducible : ∀ i < count, (DebugEntry.readAt data (offset + 28 * i)).kind = 16 →
      reproducibleOk after (DebugEntry.readAt after (offset' + 28 * i)).dataSize.toNat
        (DebugEntry.readAt after (offset' + 28 * i)).dataPointer.toNat = true)
    (h : debugEntriesOk data offset count = true) : debugEntriesOk after offset' count = true := by
  rw [debugEntriesOk_iff] at h ⊢
  have hfind (kind : UInt32) : ((List.range count).find? fun i =>
      (DebugEntry.readAt after (offset' + 28 * i)).kind == kind) =
        (List.range count).find? fun i =>
          (DebugEntry.readAt data (offset + 28 * i)).kind == kind :=
    List.find?_congr fun i hi => by rw [hkind i (List.mem_range.mp hi)]
  constructor
  · intro i hi
    rw [hfind] at hi
    have htest := List.find?_some hi
    exact hview i (List.mem_range.mp (List.mem_of_find?_eq_some hi)) (beq_iff_eq.mp htest)
      (h.1 i hi)
  · intro i hi
    rw [hfind] at hi
    have htest := List.find?_some hi
    exact hreproducible i (List.mem_range.mp (List.mem_of_find?_eq_some hi)) (beq_iff_eq.mp htest)

end PeHeaders

namespace PeFile

variable {file : PeFile} {s : Section} {rva o : Nat}

lemma Leads.holds (h : file.Leads s rva o) : s.Holds rva := by
  obtain ⟨hs, -, hlt, -⟩ := leads_iff.mp h
  have hle := (contains_of_sectionOf? hs).1
  exact ⟨hle, by omega⟩

lemma Leads.find_eq (h : file.Leads s rva o) (hapart : PeHeaders.Apart file.sections) {found : Nat}
    (hfind : file.headers.find file.optional rva = some found) : found = o := by
  obtain ⟨-, -, -, rfl⟩ := leads_iff.mp h
  exact ((PeHeaders.find_of_holds hapart h.mem h.holds).mp hfind).2.2

end PeFile

namespace LayoutPlan

variable {file : PeFile} {plan : LayoutPlan} {added : MetaSection} {s : Section} {rva o found : Nat}

/-- No two sections share a page, and none reaches the address that the added section gets. -/
structure Paged (file : PeFile) (plan : LayoutPlan) : Prop where
  apart : PeHeaders.Apart file.sections
  below : ∀ s ∈ file.sections, s.start + alignUp s.extent 0x1000 ≤ plan.sectionRva.toNat

namespace Addressable

variable (h : Addressable file plan added) (hpaged : Paged file plan)
include h hpaged

lemma apart_newSections : PeHeaders.Apart (plan.newHeaders file added).sections := by
  refine List.pairwise_append.mpr ⟨List.pairwise_map.mpr hpaged.apart, List.pairwise_singleton ..,
    fun s hs t ht rva hreaches hreaches' => ?_⟩
  obtain ⟨old, hold, rfl⟩ := List.mem_map.mp hs
  obtain rfl := List.mem_singleton.mp ht
  have hbelow := hpaged.below old hold
  have hstart : added.rva.toNat ≤ rva := hreaches'.1
  have hend : rva < old.start + alignUp old.extent 0x1000 := hreaches.2
  rw [h.rva] at hstart
  omega

/-- What was found in the data of a section is found where that data has been moved to. -/
lemma find_moved (hleads : file.Leads s rva o)
    (hfind : file.headers.find file.optional rva = some found) :
    (plan.newHeaders file added).find (plan.newOptional file) rva = some (plan.shift o) := by
  obtain ⟨hpower, hvirtual, -⟩ :=
    (PeHeaders.find_of_holds hpaged.apart hleads.mem hleads.holds).mp hfind
  obtain ⟨hle, -⟩ := h.offset_lt_kept hleads
  obtain ⟨-, -, -, ho⟩ := PeFile.leads_iff.mp hleads
  have hmem : plan.movedSection s ∈ (plan.newHeaders file added).sections :=
    List.mem_append_left _ (List.mem_map_of_mem hleads.mem)
  refine (PeHeaders.find_of_holds (h.apart_newSections hpaged) hmem hleads.holds).mpr
    ⟨hpower, hvirtual, ?_⟩
  have hstart : (plan.movedSection s).start = s.start := rfl
  rw [h.shift_of_data hle, h.rawStart_moved hleads.mem hleads.rawSize_ne, hstart]
  omega

/-- What has been pushed onto the added section is found there. -/
lemma find_pushed (hpower : PeHeaders.isPowerOfTwo file.fileAlignment = true)
    (hle : plan.sectionRva.toNat ≤ rva)
    (hlt : rva < plan.sectionRva.toNat + added.data.size) :
    (plan.newHeaders file added).find (plan.newOptional file) rva =
      some (plan.sectionStart + (rva - plan.sectionRva.toNat)) := by
  have hraw := h.le_rawSize
  have hstart : (plan.addedSection file added).start = plan.sectionRva.toNat := by
    rw [← h.rva]
    rfl
  have hmem : plan.addedSection file added ∈ (plan.newHeaders file added).sections :=
    List.mem_append_right _ (List.mem_singleton_self _)
  have hholds : (plan.addedSection file added).Holds rva := by
    rw [Section.Holds, hstart, h.rawSize_added]
    omega
  refine (PeHeaders.find_of_holds (h.apart_newSections hpaged) hmem hholds).mpr
    ⟨hpower, .inr ?_, by rw [h.rawStart_added, hstart]⟩
  rw [h.virtualSize_added, hstart]
  have := le_alignUp added.data.size (show 0 < 0x1000 by decide)
  omega

end Addressable

end LayoutPlan

end CliImage
