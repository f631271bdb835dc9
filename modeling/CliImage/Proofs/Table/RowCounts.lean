import CliImage.Table.Store
import Mathlib.Data.List.Nodup
import Mathlib.Tactic.Lemma

/-! Row counts by table number, and the mask of the tables that have rows. -/

namespace CliImage

lemma mem_maskSlots {mask : UInt64} {slot : Nat} :
    slot ∈ maskSlots mask ↔ slot < 64 ∧ mask.toNat.testBit slot = true := by
  simp [maskSlots]

lemma length_filter_range (mask : UInt64) (n : Nat) :
    ((List.range n).filter (mask.toNat.testBit ·)).length = mask.toBitVec.cpopNatRec n 0 := by
  induction n with
  | zero => rfl
  | succ n ih =>
    rw [List.range_succ, List.filter_append, List.length_append, ih, BitVec.cpopNatRec_succ,
      BitVec.cpopNatRec_eq (0 + _), Nat.zero_add]
    congr 1
    change _ = (mask.toNat.testBit n).toNat
    cases hbit : mask.toNat.testBit n <;> simp [hbit]

/-- As many tables are listed as the mask has bits. -/
lemma length_maskSlots (mask : UInt64) : (maskSlots mask).length = mask.toBitVec.cpop.toNat := by
  have hle := mask.toBitVec.cpopNatRec_zero_le 64
  rw [BitVec.cpop, BitVec.toNat_ofNat, Nat.mod_eq_of_lt (by omega)]
  exact length_filter_range mask 64

namespace TableId

lemma nodup_all : all.Nodup := by decide

lemma ofNumber?_number (t : TableId) : ofNumber? t.number = some t := by
  cases t <;> decide

lemma number_of_ofNumber? {slot : Nat} {t : TableId} (h : ofNumber? slot = some t) :
    t.number = slot := by
  simpa using List.find?_some h

lemma map_number_all :
    all.map number = (List.range 64).filter fun slot => (ofNumber? slot).isSome := by decide

end TableId

namespace RowCounts

lemma rows_eq (counts : RowCounts) (t : TableId) :
    have := t.number_lt
    counts.rows t = counts[t.number].toNat := rfl

lemma getElem_foldl_set {slots : List Nat} {f : Nat → UInt32} {i : Nat} (hi : i < 64)
    (counts : RowCounts) :
    ((slots.map fun slot => (slot, f slot)).foldl
      (fun counts (slot, n) => counts.setIfInBounds slot n) counts)[i] =
        if i ∈ slots then f i else counts[i] := by
  induction slots generalizing counts with
  | nil => simp
  | cons slot slots ih =>
    rw [List.map_cons, List.foldl_cons, ih, Vector.getElem_setIfInBounds]
    by_cases hmem : i ∈ slots
    · simp [hmem]
    · by_cases hslot : slot = i
      · simp [hslot]
      · simp [hmem, hslot, Ne.symm hslot]

lemma getElem_ofPairs (slots : List Nat) (f : Nat → UInt32) {i : Nat} (hi : i < 64) :
    (ofPairs (slots.map fun slot => (slot, f slot)))[i] = if i ∈ slots then f i else 0 := by
  rw [ofPairs, getElem_foldl_set hi]
  simp [zero]

lemma getElem_foldl_of_not_mem {pairs : List (Nat × UInt32)} {slot : Nat} (h : slot < 64)
    (hmem : slot ∉ pairs.map Prod.fst) (counts : RowCounts) :
    (pairs.foldl (fun counts (slot, n) => counts.setIfInBounds slot n) counts)[slot] =
      counts[slot] := by
  induction pairs generalizing counts with
  | nil => rfl
  | cons pair pairs ih =>
    obtain ⟨hne, hmem⟩ : slot ≠ pair.1 ∧ slot ∉ pairs.map Prod.fst := by simpa using hmem
    rw [List.foldl_cons, ih hmem, Vector.getElem_setIfInBounds, if_neg hne.symm]

lemma getElem_foldl_of_mem {pairs : List (Nat × UInt32)} (hnodup : (pairs.map Prod.fst).Nodup)
    {slot : Nat} {n : UInt32} (hmem : (slot, n) ∈ pairs) (h : slot < 64) (counts : RowCounts) :
    (pairs.foldl (fun counts (slot, n) => counts.setIfInBounds slot n) counts)[slot] = n := by
  induction pairs generalizing counts with
  | nil => cases hmem
  | cons pair pairs ih =>
    obtain ⟨hfresh, hnodup⟩ := List.nodup_cons.mp hnodup
    rw [List.foldl_cons]
    rcases List.mem_cons.mp hmem with rfl | hmem
    · rw [getElem_foldl_of_not_mem h hfresh, Vector.getElem_setIfInBounds, if_pos rfl]
    · exact ih hnodup hmem _

variable {mask : UInt64} {pairs : List (Nat × UInt32)}

/-- A table that the mask does not have has no rows. -/
lemma getElem_ofPairs_of_unlisted (hpairs : pairs.map Prod.fst = maskSlots mask) {slot : Nat}
    (h : slot < 64) (hslot : slot ∉ maskSlots mask) : (ofPairs pairs)[slot] = 0 := by
  rw [← hpairs] at hslot
  rw [ofPairs, getElem_foldl_of_not_mem h hslot]
  simp [zero]

/-- The counts are spelled in the order in which the mask lists their tables. -/
lemma foldl_ofPairs (hpairs : pairs.map Prod.fst = maskSlots mask) :
    (maskSlots mask).foldl (fun done slot =>
      done ++ Bytes.ofUInt32 ((ofPairs pairs).toArray.getD slot 0)) #[] =
    pairs.foldl (fun done p => done ++ Bytes.ofUInt32 p.2) #[] := by
  have hnodup : (pairs.map Prod.fst).Nodup := by
    rw [hpairs, maskSlots]
    exact List.nodup_range.filter _
  rw [← hpairs, List.foldl_map]
  refine List.foldl_ext _ _ _ fun done p hp => ?_
  have hlt : p.1 < 64 := (mem_maskSlots.mp (hpairs ▸ List.mem_map_of_mem hp)).1
  have hget := getElem_foldl_of_mem hnodup hp hlt zero
  rw [Array.getD_eq_getD_getElem?, Vector.getElem?_toArray, Vector.getElem?_eq_getElem hlt,
    ofPairs, hget, Option.getD_some]

end RowCounts

namespace Tables

/-- The number of rows of the table with a number, if there is such a table. -/
def countAt (ts : Tables) (slot : Nat) : UInt32 :=
  ((TableId.ofNumber? slot).map fun t => UInt32.ofNat (ts.count t)).getD 0

variable {ts : Tables}

@[simp] lemma countAt_number (ts : Tables) (t : TableId) :
    ts.countAt t.number = UInt32.ofNat (ts.count t) := by
  rw [countAt, TableId.ofNumber?_number, Option.map_some, Option.getD_some]

lemma getElem_counts (ts : Tables) {slot : Nat} (h : slot < 64) :
    ts.counts[slot] = ts.countAt slot := by
  have hpairs : (TableId.all.map fun t => (t.number, UInt32.ofNat (ts.count t))) =
      (TableId.all.map TableId.number).map fun slot => (slot, ts.countAt slot) := by
    simp
  rw [counts, hpairs, RowCounts.getElem_ofPairs _ _ h, TableId.map_number_all]
  split
  · rfl
  · rename_i hnone
    have hslot : TableId.ofNumber? slot = none := by simpa [h] using hnone
    rw [countAt, hslot]
    rfl

lemma rows_counts {t : TableId} (h : ts.count t < 2 ^ 32) : ts.counts.rows t = ts.count t := by
  have := ts.getElem_counts t.number_lt
  rw [countAt_number] at this
  rw [RowCounts.rows_eq, this, UInt32.toNat_ofNat', Nat.mod_eq_of_lt h]

lemma testBit_foldl_or {list : List TableId} {mask : UInt64} {slot : Nat} :
    (list.foldl (fun mask t => mask ||| UInt64.ofNat (2 ^ t.number)) mask).toNat.testBit slot =
      true ↔ mask.toNat.testBit slot = true ∨ slot ∈ list.map TableId.number := by
  induction list generalizing mask with
  | nil => simp
  | cons t list ih =>
    have hbit : (UInt64.ofNat (2 ^ t.number)).toNat = 2 ^ t.number := by
      refine UInt64.toNat_ofNat_of_lt' ?_
      exact Nat.pow_lt_pow_right (by decide) t.number_lt
    rw [List.foldl_cons, ih, UInt64.toNat_or, Nat.testBit_or, hbit, Nat.testBit_two_pow]
    simp only [Bool.or_eq_true, decide_eq_true_eq, List.map_cons, List.mem_cons, or_assoc,
      eq_comm (a := slot)]

lemma testBit_present {slot : Nat} : ts.present.toNat.testBit slot = true ↔
    ts.valid.toNat.testBit slot = true ∨ ∃ t, ts.count t ≠ 0 ∧ t.number = slot := by
  rw [present, testBit_foldl_or]
  simp [TableId.mem_all]

lemma countAt_eq_zero {slot : Nat} (h : ts.present.toNat.testBit slot = false) :
    ts.countAt slot = 0 := by
  rw [countAt]
  cases hslot : TableId.ofNumber? slot with
  | none => rfl
  | some t =>
    have hcount : ts.count t = 0 := by
      by_contra hne
      have := testBit_present.mpr (.inr ⟨t, hne, TableId.number_of_ofNumber? hslot⟩)
      simp [h] at this
    simp [hcount]

/-- The counts of the tables that are present are all counts there are. -/
lemma ofPairs_present (ts : Tables) :
    RowCounts.ofPairs ((maskSlots ts.present).map fun slot => (slot, ts.countAt slot)) =
      ts.counts := by
  refine Vector.ext fun i hi => ?_
  rw [RowCounts.getElem_ofPairs _ _ hi, getElem_counts _ hi]
  split
  · rfl
  · rename_i hmem
    refine (countAt_eq_zero ?_).symm
    simpa [mem_maskSlots, hi] using hmem

/-- The tables that are listed in the header are those of the mask. -/
lemma map_number_listed (ts : Tables)
    (hknown : ∀ slot ∈ maskSlots ts.valid, (TableId.ofNumber? slot).isSome) :
    (TableId.all.filter fun t => ts.present.toNat.testBit t.number).map TableId.number =
      maskSlots ts.present := by
  have hfilter : (TableId.all.filter fun t => ts.present.toNat.testBit t.number).map
      TableId.number = (TableId.all.map TableId.number).filter ts.present.toNat.testBit := by
    rw [List.filter_map]
    rfl
  rw [hfilter, TableId.map_number_all, List.filter_filter, maskSlots]
  refine List.filter_congr fun slot hslot => ?_
  cases hbit : ts.present.toNat.testBit slot with
  | false => simp
  | true =>
    rcases testBit_present.mp hbit with hvalid | ⟨t, -, rfl⟩
    · simp [hknown slot (mem_maskSlots.mpr ⟨List.mem_range.mp hslot, hvalid⟩)]
    · simp [TableId.ofNumber?_number]

end Tables

end CliImage
