import CliImage.Heap.Blobs
import CliImage.Heap.Guids
import CliImage.Heap.Strings
import CliImage.Proofs.Compressed

/-! What resolves in a heap still resolves to the same value when bytes are appended, and the heaps
only ever grow at the end. -/

namespace CliImage

namespace Strings

/-- The first zero byte is in the heap, and it is the first one of a longer heap too. -/
lemma terminator?_append {data : Bytes} {start stop : Nat}
    (h : terminator? data start = some stop) (back : Bytes) :
    stop < data.size ∧ terminator? (data ++ back) start = some stop := by
  fun_induction terminator? data start with
  | case1 start hlt hzero =>
    cases h
    refine ⟨hlt, ?_⟩
    rw [terminator?, dif_pos (by rw [Array.size_append]; omega), if_pos]
    rwa [Array.getElem_append_left]
  | case2 start hlt hne ih =>
    refine ⟨(ih h).1, ?_⟩
    rw [terminator?, dif_pos (by rw [Array.size_append]; omega), if_neg]
    · exact (ih h).2
    · rwa [Array.getElem_append_left]
  | case3 => cases h

lemma get_append {heap : Strings} {index : Nat} {text : String} (h : heap.get index = .ok text)
    (back : Bytes) : get ⟨heap.data ++ back⟩ index = .ok text := by
  unfold get at h ⊢
  split at h
  · rename_i hlt
    rw [if_pos (by rw [Array.size_append]; omega)]
    cases hstop : terminator? heap.data index with
    | none => simp [hstop] at h
    | some stop =>
      obtain ⟨hstopLt, hstop'⟩ := terminator?_append hstop back
      rw [hstop, Option.bind_some] at h
      simp only [hstop', Option.bind_some]
      rwa [Bytes.extract_append hstopLt.le]
  · cases h

lemma intern_data (heap : Strings) (text : String) :
    ∃ back, (heap.intern text).1.data = heap.data ++ back := by
  unfold intern
  split
  · exact ⟨#[], by simp⟩
  · simp only
    split
    · exact ⟨#[], by simp⟩
    · exact ⟨_, Array.append_assoc⟩

lemma findEnd?_lt {data : Bytes} {reversed : List UInt8} {start stop : Nat}
    (h : findEnd? data reversed start = some stop) : stop < data.size := by
  fun_induction findEnd? data reversed start with
  | case1 start hlt =>
    cases h
    exact hlt
  | case2 start hlt hne ih => exact ih h
  | case3 => cases h

/-- A name is found in the heap that it is put into. -/
lemma intern_le (heap : Strings) (text : String) :
    (heap.intern text).2 ≤ (heap.intern text).1.data.size := by
  unfold intern
  split
  · exact Nat.zero_le _
  · simp only
    split
    · rename_i hstop
      exact (Nat.sub_le ..).trans (findEnd?_lt hstop).le
    · rw [Array.size_append, Array.size_append]
      omega

lemma read_eq_ok {data : Bytes} {heap : Strings} :
    read data = .ok heap ↔ data[0]? = some 0 ∧ heap = ⟨data⟩ := by
  unfold read
  split <;> simp [*, eq_comm (a := heap)]

end Strings

namespace Blobs

lemma get_append {heap : Blobs} {index : Nat} {value : Bytes} (h : heap.get index = .ok value)
    (back : Bytes) : get ⟨heap.data ++ back⟩ index = .ok value := by
  unfold get at h ⊢
  split at h
  · rw [if_pos (by rw [Array.size_append]; omega)]
    cases hread : Compressed.read heap.data index with
    | error e next => simp [hread] at h
    | ok len start =>
      simp only [hread] at h
      simp only [Compressed.local_read hread back]
      split at h
      · rename_i hle
        rw [if_pos (by rw [Array.size_append]; omega)]
        rwa [Bytes.extract_append hle]
      · cases h
  · cases h

lemma intern_data {heap after : Blobs} {value : Bytes} {index : Nat}
    (h : heap.intern value = .ok (after, index)) : ∃ back, after.data = heap.data ++ back := by
  unfold intern at h
  split at h
  · cases h
    exact ⟨#[], by simp⟩
  · split at h
    · cases h
      exact ⟨#[], by simp⟩
    · obtain ⟨length, -, h⟩ := Result.bind_eq_ok.mp h
      cases h
      exact ⟨_, Array.append_assoc⟩

lemma find?_lt {data value : Bytes} {start index : Nat} (h : find? data value start = some index) :
    index < data.size := by
  fun_induction find? data value start with
  | case1 => cases h
  | case2 start hlt =>
    cases h
    exact hlt
  | case3 start hlt len first hr hle hne ih => exact ih h
  | case4 => cases h
  | case5 => cases h

/-- What is found is the value that is looked for. -/
lemma get_of_find? {data value : Bytes} {start index : Nat}
    (h : find? data value start = some index) : get ⟨data⟩ index = .ok value := by
  fun_induction find? data value start with
  | case1 => cases h
  | case2 start hlt len first hread hfits hfound =>
    cases h
    simp only [get, hlt, if_true, hread]
    rw [if_pos (by omega), hfound.2]
  | case3 start hlt len first hread hfits hne ih => exact ih h
  | case4 => cases h
  | case5 => cases h

lemma lt_size_of_get {heap : Blobs} {index : Nat} {value : Bytes} (h : heap.get index = .ok value) :
    index < heap.data.size := by
  unfold get at h
  split at h
  · assumption
  · cases h

/-- A blob is found in the heap that it is put into. -/
lemma intern_le {heap after : Blobs} {value : Bytes} {index : Nat}
    (h : heap.intern value = .ok (after, index)) : index ≤ after.data.size := by
  unfold intern at h
  split at h
  · cases h
    exact Nat.zero_le _
  · split at h
    · rename_i hfound
      cases h
      exact (find?_lt hfound).le
    · obtain ⟨length, -, h⟩ := Result.bind_eq_ok.mp h
      cases h
      rw [Array.size_append, Array.size_append]
      omega

lemma read_eq_ok {data : Bytes} {heap : Blobs} :
    read data = .ok heap ↔ data[0]? = some 0 ∧ heap = ⟨data⟩ := by
  unfold read
  split <;> simp [*, eq_comm (a := heap)]

end Blobs

lemma Guids.read_eq_ok {data : Bytes} {heap : Guids} :
    read data = .ok heap ↔ data.size % 16 = 0 ∧ heap = ⟨data⟩ := by
  unfold read
  split <;> simp [*, eq_comm (a := heap)]

end CliImage
