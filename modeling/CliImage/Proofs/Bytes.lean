import CliImage.Bytes.Access
import Mathlib.Data.Nat.Basic
import Mathlib.Order.Basic
import Mathlib.Tactic.Lemma

/-! Byte strings inside others, the numbers that they spell, and padding. -/

namespace CliImage

lemma le_alignUp (value : Nat) {alignment : Nat} (h : 0 < alignment) :
    value ≤ alignUp value alignment := by
  have := Nat.div_add_mod (value + (alignment - 1)) alignment
  have := Nat.mod_lt (value + (alignment - 1)) h
  rw [alignUp, Nat.mul_comm]
  omega

lemma alignUp_mod (value alignment : Nat) : alignUp value alignment % alignment = 0 :=
  Nat.mul_mod_left ..

lemma alignUp_of_mod_eq_zero {value alignment : Nat} (hpos : 0 < alignment)
    (h : value % alignment = 0) : alignUp value alignment = value := by
  obtain ⟨k, rfl⟩ := Nat.dvd_of_mod_eq_zero h
  rw [alignUp, Nat.mul_add_div hpos, Nat.div_eq_of_lt (by omega), Nat.add_zero, Nat.mul_comm]

/-- Aligning behind something that is aligned. -/
lemma alignUp_add {value offset alignment : Nat} (hpos : 0 < alignment)
    (h : offset % alignment = 0) :
    alignUp (offset + value) alignment = offset + alignUp value alignment := by
  obtain ⟨k, rfl⟩ := Nat.dvd_of_mod_eq_zero h
  rw [alignUp, Nat.add_assoc, Nat.mul_add_div hpos, Nat.add_mul, Nat.mul_comm k, alignUp]

namespace Bytes

variable {data piece piece' : Bytes} {pos : Nat}

@[simp] lemma size_zeros (n : Nat) : (zeros n).size = n := by simp [zeros]

@[simp] lemma size_ofUInt16 (n : UInt16) : (ofUInt16 n).size = 2 := size_ofNat ..

@[simp] lemma size_ofUInt32 (n : UInt32) : (ofUInt32 n).size = 4 := size_ofNat ..

@[simp] lemma size_ofUInt64 (n : UInt64) : (ofUInt64 n).size = 8 := size_ofNat ..

lemma size_padTo (data : Bytes) {alignment : Nat} (h : 0 < alignment) :
    (data.padTo alignment).size = alignUp data.size alignment := by
  have := le_alignUp data.size h
  rw [padTo, Array.size_append, size_zeros]
  omega

lemma padTo_of_mod_eq_zero {alignment : Nat} (hpos : 0 < alignment)
    (h : data.size % alignment = 0) : data.padTo alignment = data := by
  rw [padTo, alignUp_of_mod_eq_zero hpos h, Nat.sub_self]
  exact Array.append_empty

@[simp] lemma getElem?_singleton_append (b : UInt8) (back : Bytes) :
    (#[b] ++ back)[0]? = some b := by
  rw [Array.getElem?_append_left (by simp)]
  rfl

-- a list is read back byte by byte at once; an array that has grown byte by byte is not
lemma extract_eq_take (data : Bytes) (start stop : Nat) : data.extract start stop =
    ((data.toList.drop start).take (stop - start)).toArray :=
  Array.toList_inj.mp Array.toList_extract

lemma slice_eq_take (data : Bytes) (offset len : Nat) : data.slice offset len =
    if offset + len ≤ data.size then .ok ((data.toList.drop offset).take len).toArray
    else .error .outOfBounds := by
  rw [slice, extract_eq_take, Nat.add_sub_cancel_left]

lemma append_eq_toArray (front back : Bytes) :
    front ++ back = (front.toList ++ back.toList).toArray :=
  Array.toList_inj.mp Array.toList_append

/-- A piece stands in a byte string from a position on. -/
def StandsAt (data : Bytes) (pos : Nat) (piece : Bytes) : Prop :=
  ∃ front back, data = front ++ piece ++ back ∧ front.size = pos

lemma StandsAt.le_size (h : data.StandsAt pos piece) : pos + piece.size ≤ data.size := by
  obtain ⟨front, back, rfl, rfl⟩ := h
  simp only [Array.size_append]
  omega

lemma StandsAt.getElem? (h : data.StandsAt pos piece) {i : Nat} (hi : i < piece.size) :
    data[pos + i]? = piece[i]? := by
  obtain ⟨front, back, rfl, rfl⟩ := h
  rw [Array.getElem?_append_left (by simp only [Array.size_append]; omega),
    Array.getElem?_append_right (by omega), Nat.add_sub_cancel_left]

lemma StandsAt.lead (h : data.StandsAt pos piece) {b : UInt8} (hb : piece[0]? = some b) :
    data[pos]? = some b := by
  obtain ⟨hlt, -⟩ := Array.getElem?_eq_some_iff.mp hb
  exact (h.getElem? hlt).trans hb

lemma StandsAt.extract (h : data.StandsAt pos piece) :
    data.extract pos (pos + piece.size) = piece := by
  refine Array.ext_getElem? fun i => ?_
  rw [Array.getElem?_extract]
  have := h.le_size
  split
  · exact h.getElem? (by omega)
  · exact (Array.getElem?_eq_none (by omega)).symm

lemma standsAt_extract {stop : Nat} (hle : pos ≤ stop) (hstop : stop ≤ data.size) :
    data.StandsAt pos (data.extract pos stop) := by
  refine ⟨data.extract 0 pos, data.extract stop data.size, ?_, by simp; omega⟩
  rw [Array.extract_append_extract, Nat.zero_min, Nat.max_eq_right hle,
    Array.extract_append_extract, Nat.zero_min, Nat.max_eq_right hstop, Array.extract_size]

lemma standsAt_self (data : Bytes) : data.StandsAt 0 data := ⟨#[], #[], by simp, rfl⟩

lemma standsAt_append_left (front piece : Bytes) : (front ++ piece).StandsAt front.size piece :=
  ⟨front, #[], by simp, rfl⟩

lemma StandsAt.append_right (h : data.StandsAt pos piece) (back : Bytes) :
    (data ++ back).StandsAt pos piece := by
  obtain ⟨front, back', rfl, rfl⟩ := h
  exact ⟨front, back' ++ back, by simp [Array.append_assoc], rfl⟩

lemma StandsAt.trans (h : data.StandsAt pos piece) {i : Nat} (h' : piece.StandsAt i piece') :
    data.StandsAt (pos + i) piece' := by
  obtain ⟨front, back, rfl, rfl⟩ := h
  obtain ⟨front', back', rfl, rfl⟩ := h'
  exact ⟨front ++ front', back' ++ back, by simp [Array.append_assoc], by simp⟩

lemma StandsAt.left (h : data.StandsAt pos (piece ++ piece')) : data.StandsAt pos piece := by
  obtain ⟨front, back, rfl, rfl⟩ := h
  exact ⟨front, piece' ++ back, by simp [Array.append_assoc], rfl⟩

lemma StandsAt.right (h : data.StandsAt pos (piece ++ piece')) :
    data.StandsAt (pos + piece.size) piece' := by
  obtain ⟨front, back, rfl, rfl⟩ := h
  exact ⟨front ++ piece, back, by simp [Array.append_assoc], by simp⟩

/-- The numbers at a place depend on the bytes there only. -/
lemma natAt_congr {data' : Bytes} {pos' w : Nat}
    (h : ∀ i < w, data[pos + i]? = data'[pos' + i]?) : data.natAt pos w = data'.natAt pos' w := by
  induction w generalizing pos pos' with
  | zero => rfl
  | succ w ih =>
    rw [natAt, natAt, Array.getD_eq_getD_getElem?, Array.getD_eq_getD_getElem?]
    have hhead := h 0 (by omega)
    rw [Nat.add_zero, Nat.add_zero] at hhead
    rw [hhead, ih fun i hi => ?_]
    have := h (i + 1) (by omega)
    rwa [← Nat.add_assoc, Nat.add_right_comm, ← Nat.add_assoc, Nat.add_right_comm pos'] at this

lemma extract_congr {data' : Bytes} {pos' len : Nat}
    (h : ∀ i < len, data[pos + i]? = data'[pos' + i]?) :
    data.extract pos (pos + len) = data'.extract pos' (pos' + len) := by
  have hget (data : Bytes) (pos i : Nat) :
      (data.extract pos (pos + len))[i]? = if i < len then data[pos + i]? else none := by
    rw [Array.getElem?_extract]
    split <;> split <;> try rfl
    · omega
    · exact (Array.getElem?_eq_none (by omega)).symm
  refine Array.ext_getElem? fun i => ?_
  rw [hget, hget]
  split
  · exact h i ‹_›
  · rfl

lemma natAt_append {data : Bytes} {pos w : Nat} (h : pos + w ≤ data.size) (back : Bytes) :
    (data ++ back).natAt pos w = data.natAt pos w :=
  natAt_congr fun i hi => by rw [Array.getElem?_append_left (by omega)]

lemma extract_append {data : Bytes} {pos stop : Nat} (h : stop ≤ data.size) (back : Bytes) :
    (data ++ back).extract pos stop = data.extract pos stop := by
  rw [Array.extract_append, Nat.sub_eq_zero_of_le h, Array.extract_zero, Array.append_empty]

lemma natAt_ofNat (w n : Nat) : (ofNat w n).natAt 0 w = n % 256 ^ w := by
  induction w generalizing n with
  | zero => simp [natAt, Nat.mod_one]
  | succ w ih =>
    have hrest : (ofNat (w + 1) n).natAt 1 w = (ofNat w (n / 256)).natAt 0 w := by
      refine natAt_congr fun i hi => ?_
      rw [ofNat, Array.getElem?_append_right (by simp)]
      simp
    have hlead : (ofNat (w + 1) n)[0]? = some n.toUInt8 := by
      rw [ofNat, Array.getElem?_append_left (by simp)]
      rfl
    rw [natAt, hrest, ih, Array.getD_eq_getD_getElem?, hlead, Nat.pow_succ', Nat.mod_mul]
    simp

lemma StandsAt.natAt (h : data.StandsAt pos piece) {i w : Nat} (hi : i + w ≤ piece.size) :
    data.natAt (pos + i) w = piece.natAt i w :=
  natAt_congr fun k hk => by
    rw [Nat.add_assoc]
    exact h.getElem? (by omega)

lemma StandsAt.natAt_ofNat {w n : Nat} (h : data.StandsAt pos (ofNat w n)) (hn : n < 256 ^ w) :
    data.natAt pos w = n := by
  have := h.natAt (i := 0) (w := w) (by simp)
  rwa [Nat.add_zero, Bytes.natAt_ofNat, Nat.mod_eq_of_lt hn] at this

lemma getElem?_ofNat_natAt {data : Bytes} {pos w i : Nat} (h : pos + w ≤ data.size) (hi : i < w) :
    (ofNat w (data.natAt pos w))[i]? = data[pos + i]? := by
  induction w generalizing pos i with
  | zero => omega
  | succ w ih =>
    have hlt := (data.getD pos 0).toNat_lt
    have hbyte : ((data.getD pos 0).toNat + 256 * natAt data (pos + 1) w).toUInt8 =
        data.getD pos 0 := by
      apply UInt8.toNat_inj.mp
      simp only [Nat.toUInt8_eq, UInt8.toNat_ofNat']
      omega
    rw [natAt, ofNat, hbyte, Nat.add_mul_div_left _ _ (by decide), Nat.div_eq_of_lt (by omega),
      Nat.zero_add]
    cases i with
    | zero =>
      rw [Array.getElem?_append_left (by simp)]
      simp [Array.getElem?_eq_getElem (show pos < data.size by omega)]
    | succ i =>
      rw [Array.getElem?_append_right (by simp)]
      simp only [List.size_toArray, List.length_singleton, Nat.add_sub_cancel]
      rw [ih (by omega) (by omega), show pos + 1 + i = pos + (i + 1) by omega]

lemma ofNat_natAt_extract {w : Nat} (h : pos + w ≤ data.size) :
    ofNat w (data.natAt pos w) = data.extract pos (pos + w) := by
  refine Array.ext_getElem? fun i => ?_
  rw [Array.getElem?_extract]
  split
  · exact getElem?_ofNat_natAt h (by omega)
  · exact Array.getElem?_eq_none (by rw [size_ofNat]; omega)

lemma ofNat_natAt (data : Bytes) : ofNat data.size (data.natAt 0 data.size) = data := by
  rw [ofNat_natAt_extract (by omega), Nat.zero_add, Array.extract_size]

lemma size_foldl_ofUInt32 {f : Nat → UInt32} (slots : List Nat) (done : Bytes) :
    (slots.foldl (fun done slot => done ++ ofUInt32 (f slot)) done).size =
      done.size + 4 * slots.length := by
  induction slots generalizing done with
  | nil => rfl
  | cons slot slots ih =>
    rw [List.foldl_cons, ih, Array.size_append, size_ofUInt32, List.length_cons]
    omega

lemma toNatBE_ofNatBE {w n : Nat} (h : n < 256 ^ w) : (ofNatBE w n).toNatBE = n := by
  rw [toNatBE, ofNatBE, ofLongNat_eq, Array.reverse_reverse, toNat_eq, size_ofNat, natAt_ofNat,
    Nat.mod_eq_of_lt h]

lemma toNatBE_lt_pow (data : Bytes) : data.toNatBE < 256 ^ data.size := by
  rw [toNatBE, toNat_eq, Array.size_reverse]
  exact natAt_lt ..

lemma ofNatBE_toNatBE (data : Bytes) : ofNatBE data.size data.toNatBE = data := by
  have h := ofNat_natAt data.reverse
  rw [Array.size_reverse] at h
  rw [ofNatBE, ofLongNat_eq, toNatBE, toNat_eq, Array.size_reverse, h, Array.reverse_reverse]

@[simp] lemma size_ofNatBE (w n : Nat) : (ofNatBE w n).size = w := by
  rw [ofNatBE, ofLongNat_eq, Array.size_reverse, size_ofNat]

lemma ofNatBE_succ (w n : Nat) :
    ofNatBE (w + 1) n = #[(n / 256 ^ w).toUInt8] ++ ofNatBE w n := by
  rw [ofNatBE, ofLongNat_eq, ofNat_add, Array.reverse_append, ofNatBE, ofLongNat_eq]
  rfl

@[simp] lemma ofNatBE_zero (n : Nat) : ofNatBE 0 n = #[] := by
  rw [ofNatBE, ofLongNat_eq]
  rfl

lemma toNatBE_ofNatBE_mod (w n : Nat) : (ofNatBE w n).toNatBE = n % 256 ^ w := by
  rw [toNatBE, ofNatBE, ofLongNat_eq, Array.reverse_reverse, toNat_eq, size_ofNat, natAt_ofNat]

/-- The piece is what lies between two places. -/
structure Passed (data : Bytes) (pos next : Nat) (piece : Bytes) : Prop where
  le : pos ≤ next
  le_size : next ≤ data.size
  extract : data.extract pos next = piece

lemma Passed.nil (h : pos ≤ data.size) : data.Passed pos pos #[] :=
  ⟨le_rfl, h, Array.extract_empty_of_stop_le_start le_rfl⟩

lemma Passed.append {mid next : Nat} (h : data.Passed pos mid piece)
    (h' : data.Passed mid next piece') : data.Passed pos next (piece ++ piece') := by
  refine ⟨h.le.trans h'.le, h'.le_size, ?_⟩
  rw [← h.extract, ← h'.extract, Array.extract_append_extract, Nat.min_eq_left h.le,
    Nat.max_eq_right h'.le]

lemma Passed.size {next : Nat} (h : data.Passed pos next piece) : pos + piece.size = next := by
  have hle := h.le
  have hsize := h.le_size
  rw [← h.extract, Array.size_extract]
  omega

end Bytes

end CliImage
