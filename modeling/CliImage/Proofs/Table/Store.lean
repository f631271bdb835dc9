import CliImage.Proofs.Table.Stream

/-! Changing rows leaves the header alone and every row full; a cell is changed at its own place. -/

namespace CliImage.Tables

variable {ts after : Tables} {t : TableId} {row : Row} {rows rows' : Array Row}
  {rid other column : Nat} {value : UInt32}

@[simp] lemma setTable_table (ts : Tables) (t : TableId) : ts.setTable t (ts.table t) = ts := by
  simp [setTable, table, get_slot]

@[simp] lemma setTable_setTable : (ts.setTable t rows).setTable t rows' = ts.setTable t rows' := by
  simp [setTable]

lemma setTable_setCell : ts.setTable t ((ts.setCell t rid column value).table t) =
    ts.setCell t rid column value := by
  unfold setCell
  split
  · exact setTable_table ..
  · rw [table_setTable_self]

@[simp] lemma count_setTable_self (t : TableId) (rows : Array Row) :
    (ts.setTable t rows).count t = rows.size := by
  rw [count, table_setTable_self]

lemma count_setTable_of_ne {s t : TableId} (h : s ≠ t) (rows : Array Row) :
    (ts.setTable t rows).count s = ts.count s := by
  rw [count, table_setTable_of_ne _ h, count]

lemma table_setCell_of_ne {s t : TableId} (h : t ≠ s) (rid column : Nat) (value : UInt32) :
    (ts.setCell s rid column value).table t = ts.table t := by
  unfold setCell
  split
  · rfl
  · exact table_setTable_of_ne _ h _

@[simp] lemma count_setCell (t s : TableId) (rid column : Nat) (value : UInt32) :
    (ts.setCell s rid column value).count t = ts.count t := by
  unfold setCell
  split
  · rfl
  · by_cases ht : t = s
    · subst ht
      rw [count_setTable_self, Array.size_modify, count]
    · exact count_setTable_of_ne ht _

lemma row?_setCell_of_ne (h : other ≠ rid) :
    (ts.setCell t rid column value).row? t other = ts.row? t other := by
  unfold setCell row?
  split
  · rfl
  · split
    · rfl
    · rw [table_setTable_self, Array.getElem?_modify, if_neg (by omega)]

lemma row?_setCell_self : (ts.setCell t rid column value).row? t rid =
    (ts.row? t rid).map (·.setIfInBounds column value) := by
  unfold setCell row?
  split
  · rfl
  · rw [table_setTable_self, Array.getElem?_modify, if_pos rfl]

lemma cell_setCell_self {old : UInt32} (h : ts.cell t rid column = .ok old) :
    (ts.setCell t rid column value).cell t rid column = .ok value := by
  unfold cell at h ⊢
  rw [row?_setCell_self]
  cases hrow : ts.row? t rid with
  | none =>
    rw [hrow] at h
    cases h
  | some row =>
    rw [hrow, Option.bind_some] at h
    cases hget : row[column]? with
    | none =>
      rw [hget] at h
      cases h
    | some _ =>
      rw [Option.map_some, Option.bind_some, Array.getElem?_setIfInBounds, if_pos rfl,
        if_pos (Array.getElem?_eq_some_iff.mp hget).1]

lemma cell_setCell_of_ne {column' : Nat} (h : column' ≠ column) :
    (ts.setCell t rid column value).cell t other column' = ts.cell t other column' := by
  have hbind : ((ts.setCell t rid column value).row? t other).bind (·[column']?) =
      (ts.row? t other).bind (·[column']?) := by
    by_cases hother : other = rid
    · subst hother
      rw [row?_setCell_self, Option.bind_map]
      congr 1
      funext row
      exact Array.getElem?_setIfInBounds_ne h.symm
    · rw [row?_setCell_of_ne hother]
  rw [cell, cell, hbind]

lemma cell_congr {ts' : Tables} (h : ts'.row? t rid = ts.row? t rid) :
    ts'.cell t rid column = ts.cell t rid column := by
  rw [cell, cell, h]

lemma checkWidth_eq_ok : checkWidth t row = .ok () ↔ row.size = t.columns.length := by
  unfold checkWidth
  split <;> simp [*]

lemma push_eq_ok (h : ts.push t row = .ok after) :
    row.size = t.columns.length ∧ after = ts.setTable t ((ts.table t).push row) := by
  unfold push append at h
  obtain ⟨_, hcheck, h⟩ := Result.bind_eq_ok.mp h
  cases h
  refine ⟨?_, by rw [Array.push_eq_append]⟩
  cases hrow : checkWidth t row with
  | ok _ => exact checkWidth_eq_ok.mp hrow
  | error e => simp [hrow] at hcheck

lemma insert_eq_ok {rid : Nat} (h : ts.insert t rid row = .ok after) :
    row.size = t.columns.length ∧ ∃ hrid : rid - 1 ≤ (ts.table t).size,
      after = ts.setTable t ((ts.table t).insertIdx (rid - 1) row hrid) := by
  obtain ⟨_, hcheck, h⟩ := Result.bind_eq_ok.mp h
  split at h
  · cases h
    exact ⟨checkWidth_eq_ok.mp hcheck, _, rfl⟩
  · cases h

lemma Formed.setTable (h : ts.Formed) {rows : Array Row}
    (hrows : ∀ row ∈ rows, row.size = t.columns.length) : (ts.setTable t rows).Formed :=
  { h with
    width := fun s row hrow => by
      by_cases hs : s = t
      · subst hs
        rw [table_setTable_self] at hrow
        exact hrows row hrow
      · rw [table_setTable_of_ne _ hs] at hrow
        exact h.width s row hrow }

lemma Formed.push (h : ts.Formed) (hpush : ts.push t row = .ok after) : after.Formed := by
  obtain ⟨hsize, rfl⟩ := push_eq_ok hpush
  refine h.setTable fun other hother => ?_
  rcases Array.mem_push.mp hother with hother | rfl
  · exact h.width t other hother
  · exact hsize

lemma Formed.insert (h : ts.Formed) {rid : Nat} (hinsert : ts.insert t rid row = .ok after) :
    after.Formed := by
  obtain ⟨hsize, hrid, rfl⟩ := insert_eq_ok hinsert
  refine h.setTable fun other hother => ?_
  rcases Array.mem_insertIdx.mp hother with rfl | hother
  · exact hsize
  · exact h.width t other hother

lemma Formed.setCell (h : ts.Formed) (t : TableId) (rid column : Nat) (value : UInt32) :
    (ts.setCell t rid column value).Formed := by
  unfold Tables.setCell
  split
  · exact h
  · refine h.setTable fun row hrow => ?_
    obtain ⟨i, hi, rfl⟩ := Array.getElem_of_mem hrow
    rw [Array.getElem_modify]
    have hwidth := h.width t _ (Array.getElem_mem (by simpa using hi))
    split
    · rwa [Array.size_setIfInBounds]
    · exact hwidth

end CliImage.Tables
