import CliImage.Proofs.Table.CodedIndex
import CliImage.Proofs.Table.Lossless

/-! Tables can be written exactly where each cell fits its column. A column is never narrower where
more rows or larger heaps are counted. -/

namespace CliImage

/-- Two bytes hold the value, or the column is wide. -/
def Column.Fits (w : Widths) (column : Column) (value : UInt32) : Prop :=
  w.isLarge column = true ∨ value.toNat < 2 ^ 16

namespace Widths

variable {w w' : Widths} {t : TableId} {kind : CodedKind}

lemma rowBits_le {k : Nat} (hk : 1 ≤ k) : w.rowBits t ≤ k ↔ w.counts.rows t < 2 ^ k := by
  unfold rowBits
  split
  · rename_i hzero
    rw [hzero]
    exact iff_of_true hk (Nat.two_pow_pos k)
  · rename_i hne
    exact Nat.succ_le_iff.trans (Nat.log2_lt hne)

lemma isLarge_row : w.isLarge (.row t) = true ↔ 2 ^ 16 ≤ w.counts.rows t := by
  have := rowBits_le (w := w) (t := t) (k := 16) (by omega)
  rw [isLarge, decide_eq_true_eq]
  omega

lemma isLarge_run : w.isLarge (.run t) = true ↔ 2 ^ 16 ≤ w.counts.rows t := isLarge_row

lemma foldl_max_le {list : List Nat} {n k : Nat} :
    list.foldl max n ≤ k ↔ n ≤ k ∧ ∀ m ∈ list, m ≤ k := by
  induction list generalizing n with
  | nil => simp
  | cons m list ih =>
    rw [List.foldl_cons, ih, List.forall_mem_cons, Nat.max_le, and_assoc]

lemma isLarge_coded : w.isLarge (.coded kind) = false ↔
    ∀ t, some t ∈ kind.tables → w.counts.rows t < 2 ^ (16 - kind.tagBits) := by
  have htag := kind.tagBits_le
  have hbits : w.codedBits kind ≤ 16 ↔
      ((kind.tables.filterMap id).map w.rowBits).foldl max 0 ≤ 16 - kind.tagBits := by
    rw [codedBits]
    omega
  rw [isLarge, largeCoded, decide_eq_false_iff_not, Nat.not_lt, hbits, foldl_max_le]
  simp [rowBits_le (show 1 ≤ 16 - kind.tagBits by omega)]

/-- No column is narrower here than there. -/
def Le (w w' : Widths) : Prop := ∀ column, w.isLarge column = true → w'.isLarge column = true

lemma le_of_counts (hstrings : w.largeStrings = true → w'.largeStrings = true)
    (hguids : w.largeGuids = true → w'.largeGuids = true)
    (hblobs : w.largeBlobs = true → w'.largeBlobs = true)
    (hrows : ∀ t, w.counts.rows t ≤ w'.counts.rows t) : w.Le w' := by
  intro column
  cases column with
  | u16 => exact id
  | u32 => exact id
  | string => exact hstrings
  | guid => exact hguids
  | blob => exact hblobs
  | row t => exact fun h => isLarge_row.mpr ((isLarge_row.mp h).trans (hrows t))
  | run t => exact fun h => isLarge_run.mpr ((isLarge_run.mp h).trans (hrows t))
  | coded kind =>
    intro h
    by_contra hsmall
    rw [Bool.not_eq_true, isLarge_coded] at hsmall
    have : w.isLarge (.coded kind) = false :=
      isLarge_coded.mpr fun t ht => (hrows t).trans_lt (hsmall t ht)
    rw [h] at this
    cases this

def FitsRow (w : Widths) (t : TableId) (row : Row) : Prop :=
  ∀ (i : Nat) column value, t.columns[i]? = some column → row[i]? = some value →
    column.Fits w value

lemma FitsRow.mono {row : Row} (h : w.FitsRow t row) (hle : w.Le w') : w'.FitsRow t row :=
  fun i column value hcolumn hvalue => (h i column value hcolumn hvalue).imp_left (hle column)

end Widths

namespace Tables

variable {t : TableId} {w : Widths}

lemma exists_encodeCell {column : Column} {value : UInt32} :
    (∃ piece, encodeCell t column (w.isLarge column) value = .ok piece) ↔ column.Fits w value := by
  unfold encodeCell Bytes.ofIndex Column.Fits
  by_cases hu16 : column = .u16
  · subst hu16
    by_cases hvalue : 2 ^ 16 ≤ value.toNat
    · simp [Widths.isLarge, hvalue]
    · simp [Widths.isLarge, hvalue, Nat.lt_of_not_ge hvalue]
  · rw [if_neg fun h => hu16 h.1]
    cases w.isLarge column with
    | true => simp
    | false => by_cases hvalue : value.toNat < 2 ^ 16 <;> simp [hvalue]

lemma exists_encodeRow {columns : List Column} {values : List UInt32} {done : Bytes} :
    (∃ out, encodeRow t (columns.map fun column => (column, w.isLarge column)) values done =
      .ok out) ↔ ∀ p ∈ columns.zip values, p.1.Fits w p.2 := by
  induction columns generalizing values done with
  | nil => simp [encodeRow]
  | cons column columns ih =>
    cases values with
    | nil => simp [encodeRow]
    | cons value values =>
      rw [List.map_cons, List.zip_cons_cons, List.forall_mem_cons, ← exists_encodeCell (t := t)]
      simp only [encodeRow, Result.bind_eq_ok]
      rw [exists_comm]
      simp only [exists_and_left, ih, exists_and_right]

lemma fitsRow_iff {row : Row} :
    w.FitsRow t row ↔ ∀ p ∈ t.columns.zip row.toList, p.1.Fits w p.2 := by
  constructor
  · intro h p hp
    obtain ⟨i, hi⟩ := List.getElem?_of_mem hp
    obtain ⟨hcolumn, hvalue⟩ := List.getElem?_zip_eq_some.mp hi
    exact h i _ _ hcolumn (by simpa using hvalue)
  · intro h i column value hcolumn hvalue
    exact h (column, value) (List.mem_of_getElem?
      (List.getElem?_zip_eq_some.mpr ⟨hcolumn, by simpa using hvalue⟩))

/-- Tables can be written exactly where all of their cells fit. -/
theorem exists_encode_iff {ts : Tables} {external : Option RowCounts} :
    (∃ bytes, ts.encode external = .ok bytes) ↔
      ∀ t, ∀ row ∈ ts.table t, (ts.widths external).FitsRow t row := by
  have htable : ∀ t done, (∃ out, encodeTable (ts.widths external) t (ts.table t) done = .ok out) ↔
      ∀ row ∈ ts.table t, (ts.widths external).FitsRow t row := by
    intro t done
    unfold encodeTable
    rw [← Array.foldlM_toList, Result.exists_foldlM_iff
      (p := fun row => (ts.widths external).FitsRow t row)
      fun _ _ => exists_encodeRow.trans fitsRow_iff.symm]
    simp
  have hall : (∀ t, ∀ row ∈ ts.table t, (ts.widths external).FitsRow t row) ↔
      ∃ body, TableId.all.foldlM (fun done t => encodeTable (ts.widths external) t (ts.table t) done)
        ts.encodeHeader = .ok body := by
    rw [Result.exists_foldlM_iff fun done t => htable t done]
    exact ⟨fun h t _ => h t, fun h t => h t (TableId.mem_all t)⟩
  rw [hall]
  simp only [encode, Result.bind_eq_ok]
  exact ⟨fun ⟨_, body, hbody, _⟩ => ⟨body, hbody⟩, fun ⟨body, hbody⟩ => ⟨_, body, hbody, rfl⟩⟩

/-- Tables that have been read can be written. -/
lemma fitsRow_of_read {data : Bytes} {external : Option RowCounts} {ts : Tables}
    (h : read data external = .ok ts) (t : TableId) (row : Row) (hrow : row ∈ ts.table t) :
    (ts.widths external).FitsRow t row :=
  exists_encode_iff.mp ⟨_, (encode_of_read h).2.2⟩ t row hrow

end Tables

end CliImage
