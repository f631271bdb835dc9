import CliImage.Proofs.Renumber.References
import CliImage.Renumber.Sorting
import Mathlib.Data.List.Nodup

/-! Sorting a table is a permutation of its rows, and the map made of it leads each row to its new
place. -/

namespace CliImage.Tables

lemma sortedOrder_perm (key : List Nat) (rows : Array Row) :
    (sortedOrder key rows).Perm (List.range rows.size) := List.mergeSort_perm ..

/-- Writing numbers at distinct places. -/
lemma getElem?_foldl_set {pairs : List (Nat × Nat)} (hnodup : (pairs.map Prod.fst).Nodup)
    (targets : Array UInt32) :
    (∀ i, i ∉ pairs.map Prod.fst → (pairs.foldl (fun targets (old, new) =>
        targets.setIfInBounds old (UInt32.ofNat (new + 1))) targets)[i]? = targets[i]?) ∧
      ∀ i k, (i, k) ∈ pairs → i < targets.size → (pairs.foldl (fun targets (old, new) =>
        targets.setIfInBounds old (UInt32.ofNat (new + 1))) targets)[i]? =
          some (UInt32.ofNat (k + 1)) := by
  induction pairs generalizing targets with
  | nil => simp
  | cons head rest ih =>
    obtain ⟨old, new⟩ := head
    obtain ⟨hfresh, hnodup'⟩ := List.nodup_cons.mp hnodup
    obtain ⟨hother, hset⟩ := ih hnodup' (targets.setIfInBounds old (UInt32.ofNat (new + 1)))
    refine ⟨fun i hi => ?_, fun i k hmem hlt => ?_⟩
    · obtain ⟨hne, hi'⟩ : i ≠ old ∧ i ∉ rest.map Prod.fst := by
        simpa only [List.map_cons, List.mem_cons, not_or] using hi
      rw [List.foldl_cons, hother i hi', Array.getElem?_setIfInBounds, if_neg hne.symm]
    · rw [List.foldl_cons]
      rcases List.mem_cons.mp hmem with heq | hmem
      · obtain ⟨rfl, rfl⟩ := Prod.mk.inj heq
        rw [hother i hfresh, Array.getElem?_setIfInBounds, if_pos rfl, if_pos hlt]
      · exact hset i k hmem (by simpa using hlt)

variable {t : TableId} {order : List Nat} {n : Nat}

lemma size_targets_ridMapOf (t : TableId) (order : List Nat) :
    (ridMapOf t order).targets.size = order.length := by
  have h : ∀ (pairs : List (Nat × Nat)) (targets : Array UInt32),
      (pairs.foldl (fun targets (old, new) =>
        targets.setIfInBounds old (UInt32.ofNat (new + 1))) targets).size = targets.size := by
    intro pairs
    induction pairs with
    | nil => exact fun _ => rfl
    | cons head rest ih =>
      intro targets
      rw [List.foldl_cons, ih]
      exact Array.size_setIfInBounds
  simp only [ridMapOf]
  rw [h, Array.size_replicate]

/-- The row that the order puts at place `k` gets the number `k + 1`. -/
lemma get_ridMapOf (horder : order.Perm (List.range n)) {i k : Nat} (hk : order[k]? = some i)
    {r : UInt32} (hr : r.toNat = i + 1) : (ridMapOf t order).get r = UInt32.ofNat (k + 1) := by
  have hlt : i < order.length := by
    have := horder.mem_iff.mp (List.mem_of_getElem? hk)
    rw [List.mem_range, ← List.length_range (n := n), ← horder.length_eq] at this
    exact this
  have hnodup : (order.zipIdx.map Prod.fst).Nodup := by
    rw [List.zipIdx_map_fst]
    exact horder.nodup_iff.mpr List.nodup_range
  have hmem : (i, k) ∈ order.zipIdx := List.mem_zipIdx_iff_getElem?.mpr hk
  have hne : r ≠ 0 := by
    rintro rfl
    simp at hr
  rw [RidMap.get, if_neg hne, hr, Nat.add_sub_cancel, Array.getD_eq_getD_getElem?]
  simp only [ridMapOf]
  rw [(getElem?_foldl_set hnodup _).2 i k hmem (by simpa using hlt), Option.getD_some]

lemma get_ridMapOf_beyond (horder : order.Perm (List.range n)) {r : UInt32} (hr : n < r.toNat) :
    (ridMapOf t order).get r = r := by
  refine RidMap.get_beyond ?_
  rwa [size_targets_ridMapOf, horder.length_eq, List.length_range]

lemma exists_place (horder : order.Perm (List.range n)) {r : UInt32} (hpos : 1 ≤ r.toNat)
    (hle : r.toNat ≤ n) : ∃ k < n, order[k]? = some (r.toNat - 1) := by
  have hmem : r.toNat - 1 ∈ order := horder.mem_iff.mpr (List.mem_range.mpr (by omega))
  obtain ⟨k, hk⟩ := List.getElem?_of_mem hmem
  refine ⟨k, ?_, hk⟩
  have := (List.getElem?_eq_some_iff.mp hk).1
  rwa [horder.length_eq, List.length_range] at this

lemma get_ridMapOf_range (r : UInt32) : (ridMapOf t (List.range n)).get r = r := by
  rcases Nat.eq_zero_or_pos r.toNat with hzero | hpos
  · obtain rfl : r = 0 := UInt32.toNat_inj.mp hzero
    rfl
  rcases Nat.lt_or_ge n r.toNat with hlt | hle
  · exact get_ridMapOf_beyond (.refl _) hlt
  · rw [get_ridMapOf (.refl _) (k := r.toNat - 1) (by rw [List.getElem?_range (by omega)])
      (by omega), Nat.sub_add_cancel hpos, UInt32.ofNat_toNat]

/-- Different rows get different numbers. -/
lemma get_ridMapOf_inj (horder : order.Perm (List.range n)) (hn : n < 2 ^ 32) {r s : UInt32}
    (hr : 1 ≤ r.toNat ∧ r.toNat ≤ n) (hs : 1 ≤ s.toNat ∧ s.toNat ≤ n)
    (h : (ridMapOf t order).get r = (ridMapOf t order).get s) : r = s := by
  obtain ⟨k, hk, hrk⟩ := exists_place horder hr.1 hr.2
  obtain ⟨l, hl, hsl⟩ := exists_place horder hs.1 hs.2
  rw [get_ridMapOf horder hrk (by omega), get_ridMapOf horder hsl (by omega)] at h
  have hkl := congrArg UInt32.toNat h
  rw [UInt32.toNat_ofNat_of_lt' (by simp [UInt32.size]; omega),
    UInt32.toNat_ofNat_of_lt' (by simp [UInt32.size]; omega)] at hkl
  obtain rfl : k = l := by omega
  rw [hrk] at hsl
  have := Option.some.inj hsl
  exact UInt32.toNat_inj.mp (by omega)

/-- What sorting does to the tables where rows move. -/
lemma sortTable_eq_some {ts after : Tables} {map : RidMap}
    (h : ts.sortTable t = (after, some map)) : ∃ key order, t.sortKey? = some key ∧
      order = sortedOrder key (ts.table t) ∧ order.Perm (List.range (ts.count t)) ∧
      map = ridMapOf t order ∧
      after = ts.setTable t (order.map fun i => (ts.table t).getD i #[]).toArray := by
  unfold sortTable at h
  split at h
  · cases h
  · rename_i key hkey
    simp only at h
    split at h
    · cases h
    · cases h
      exact ⟨key, _, hkey, rfl, sortedOrder_perm _ _, rfl, rfl⟩

/-- Where no row moves the rows were in order. -/
lemma sortTable_eq_none {ts after : Tables} (h : ts.sortTable t = (after, none)) {key : List Nat}
    (hkey : t.sortKey? = some key) :
    sortedOrder key (ts.table t) = List.range (ts.count t) := by
  unfold sortTable at h
  rw [hkey] at h
  simp only at h
  split at h
  · assumption
  · cases h

end CliImage.Tables
