import CliImage.Layout.Plan
import CliImage.Proofs.Edit

/-! Where a plan puts the bytes of the input and of the added section. -/

namespace CliImage

namespace PeFile

variable {file : PeFile} {s : Section}

lemma le_foldl_max {f : Section → Nat} {sections : List Section} {stop : Nat}
    (h : (sections.map f).max? = some stop) (hs : s ∈ sections) : f s ≤ stop :=
  (List.max?_eq_some_iff.mp h).2 _ (List.mem_map_of_mem hs)

lemma rawEnd_le_endOfSections (hs : s ∈ file.sections) : s.rawEnd ≤ file.endOfSections := by
  unfold endOfSections
  split
  · rename_i stop hstop
    exact le_foldl_max hstop hs
  · rename_i hnone
    rw [List.max?_eq_none_iff, List.map_eq_nil_iff] at hnone
    rw [hnone] at hs
    cases hs

lemma extent_le_imageEnd (hs : s ∈ file.sections) :
    s.start + s.extent ≤ LayoutPlan.imageEnd file := by
  unfold LayoutPlan.imageEnd
  split
  · rename_i stop hstop
    exact le_foldl_max (f := fun s => s.start + s.extent) hstop hs
  · rename_i hnone
    rw [List.max?_eq_none_iff, List.map_eq_nil_iff] at hnone
    rw [hnone] at hs
    cases hs

end PeFile

namespace LayoutPlan

open Bytes

variable {file : PeFile} {plan : LayoutPlan} {added : MetaSection}

lemma growthFor_eq_ok {growth : Nat} (h : growthFor file = .ok growth)
    (halign : 0 < file.fileAlignment) : tableEnd file ≤ file.headersSize + growth ∧
      (growth ≠ 0 → ∀ s ∈ file.sections, file.headersSize + growth ≤ s.start) ∧
      growth % file.fileAlignment = 0 := by
  unfold growthFor at h
  split at h
  · rename_i hlt
    have hle := le_alignUp (tableEnd file - file.headersSize) halign
    simp only at h
    split at h
    · rename_i first hfirst
      split at h
      · cases h
      · cases h
        refine ⟨by omega, fun _ s hs => ?_, alignUp_mod ..⟩
        have := (List.min?_eq_some_iff.mp hfirst).2 _ (List.mem_map_of_mem hs)
        omega
    · rename_i hnone
      cases h
      rw [List.min?_eq_none_iff, List.map_eq_nil_iff] at hnone
      refine ⟨by omega, fun _ s hs => ?_, alignUp_mod ..⟩
      rw [hnone] at hs
      cases hs
  · cases h
    exact ⟨by omega, fun h => absurd rfl h, Nat.zero_mod _⟩

/-- What a plan for a file says: the headers get room for one more section, and the added section
lies behind all others in memory and in the file. -/
structure Planned (file : PeFile) (plan : LayoutPlan) : Prop where
  oldHeaders : plan.oldHeaders = file.headersSize
  room : tableEnd file ≤ file.headersSize + plan.growth
  below : plan.growth ≠ 0 → ∀ s ∈ file.sections, file.headersSize + plan.growth ≤ s.start
  growth_mod : plan.growth % file.fileAlignment = 0
  kept : plan.kept = min (max file.endOfSections file.headersSize) file.data.size
  rva : plan.sectionRva.toNat = alignUp (imageEnd file) file.sectionAlignment
  start : plan.sectionStart = alignUp (plan.kept + plan.growth) file.fileAlignment

lemma planned_of_ofFile (h : ofFile file = .ok plan) (halign : 0 < file.fileAlignment) :
    Planned file plan := by
  unfold ofFile at h
  obtain ⟨_, -, h⟩ := Result.bind_eq_ok.mp h
  obtain ⟨growth, hgrowth, h⟩ := Result.bind_eq_ok.mp h
  obtain ⟨hrva, h⟩ := Result.unless_throw_eq_ok.mp h
  cases h
  obtain ⟨hroom, hbelow, hmod⟩ := growthFor_eq_ok hgrowth halign
  exact ⟨rfl, hroom, hbelow, hmod, rfl, UInt32.toNat_ofNat_of_lt' (by simp [UInt32.size]; omega),
    rfl⟩

lemma Planned.kept_le (h : Planned file plan) : plan.kept ≤ file.data.size := by
  rw [h.kept]
  exact Nat.min_le_right ..

lemma Planned.oldHeaders_le (h : Planned file plan) (hsize : file.headersSize ≤ file.data.size) :
    plan.oldHeaders ≤ plan.kept := by
  rw [h.kept, h.oldHeaders]
  omega

lemma Planned.kept_le_start (h : Planned file plan) (halign : 0 < file.fileAlignment) :
    plan.kept + plan.growth ≤ plan.sectionStart := by
  rw [h.start]
  exact le_alignUp _ halign

lemma shift_of_lt {offset : Nat} (h : offset < plan.oldHeaders) : plan.shift offset = offset :=
  if_neg (by omega)

lemma shift_of_le {offset : Nat} (h : plan.oldHeaders ≤ offset) :
    plan.shift offset = offset + plan.growth := if_pos h

lemma size_moved (hkept : plan.kept ≤ file.data.size) :
    (file.data.extract 0 (min plan.oldHeaders plan.kept) ++ zeros plan.growth
      ++ file.data.extract (min plan.oldHeaders plan.kept) plan.kept).size =
        plan.kept + plan.growth := by
  simp only [Array.size_append, Array.size_extract, size_zeros]
  omega

lemma le_rawSize (halign : 0 < file.fileAlignment) : added.data.size ≤ rawSize file added :=
  le_alignUp _ halign

lemma place_eq (hkept : plan.kept ≤ file.data.size) :
    plan.place file added = file.data.extract 0 (min plan.oldHeaders plan.kept) ++ zeros plan.growth
      ++ file.data.extract (min plan.oldHeaders plan.kept) plan.kept
      ++ zeros (plan.sectionStart - (plan.kept + plan.growth)) ++ added.data
      ++ zeros (rawSize file added - added.data.size) := by
  rw [place]
  simp only [size_moved hkept]

lemma size_place (hkept : plan.kept ≤ file.data.size)
    (hstart : plan.kept + plan.growth ≤ plan.sectionStart) (halign : 0 < file.fileAlignment) :
    (plan.place file added).size = plan.sectionStart + rawSize file added := by
  have : added.data.size ≤ rawSize file added := le_rawSize halign
  rw [place_eq hkept]
  simp only [Array.size_append, Array.size_extract, size_zeros]
  omega

/-- The bytes of the input that stay are found at their shifted offsets. -/
lemma getElem?_place (hkept : plan.kept ≤ file.data.size) {offset : Nat} (h : offset < plan.kept) :
    (plan.place file added)[plan.shift offset]? = file.data[offset]? := by
  rw [place_eq hkept]
  by_cases hlt : offset < plan.oldHeaders
  · rw [shift_of_lt hlt]
    simp only [Array.append_assoc]
    rw [Array.getElem?_append_left (by rw [Array.size_extract]; omega), Array.getElem?_extract,
      if_pos (by omega), Nat.zero_add]
  · rw [shift_of_le (by omega)]
    have hsize : (file.data.extract 0 (min plan.oldHeaders plan.kept) ++ zeros plan.growth).size =
        plan.oldHeaders + plan.growth := by
      simp only [Array.size_append, Array.size_extract, size_zeros]
      omega
    rw [Array.getElem?_append_left, Array.getElem?_append_left, Array.getElem?_append_left,
      Array.getElem?_append_right, hsize, Array.getElem?_extract, if_pos (by omega)]
    · congr 1
      omega
    all_goals simp only [Array.size_append, Array.size_extract, size_zeros]; omega

lemma standsAt_place (hkept : plan.kept ≤ file.data.size)
    (hstart : plan.kept + plan.growth ≤ plan.sectionStart) :
    (plan.place file added).StandsAt plan.sectionStart added.data := by
  rw [place_eq hkept]
  refine ⟨_, _, rfl, ?_⟩
  rw [Array.size_append, size_moved hkept, size_zeros]
  omega

end LayoutPlan

end CliImage
