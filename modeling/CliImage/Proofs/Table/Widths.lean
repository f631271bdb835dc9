import CliImage.Proofs.Table.Fits

/-! An index column is as wide as the rows that it must number ask for: four bytes from the first
row on that two bytes have no room for, beside the tag of a coded index. -/

namespace CliImage

namespace CodedKind

variable {kind : CodedKind} {t : TableId} {row : UInt32}

/-- The tag has no more bits than the list of tables needs. -/
lemma lt_length_tables (kind : CodedKind) : 2 ^ (kind.tagBits - 1) < kind.tables.length := by
  cases kind <;> decide

/-- A row that fits above the tag is spelled in as many bits as row and tag have. -/
lemma exists_encode_lt {bits : Nat} (hbits : bits ≤ 32) (htag : kind.tagBits ≤ bits)
    (ht : some t ∈ kind.tables) (hrow : row.toNat < 2 ^ (bits - kind.tagBits)) :
    ∃ value, kind.encode t row = .ok value ∧ value.toNat < 2 ^ bits := by
  obtain ⟨tag, hget⟩ := List.getElem?_of_mem ht
  have htagLt : tag < 2 ^ kind.tagBits :=
    (List.getElem?_eq_some_iff.mp hget).1.trans_le (length_tables_le kind)
  have hlt : row.toNat * 2 ^ kind.tagBits + tag < 2 ^ bits := by
    calc row.toNat * 2 ^ kind.tagBits + tag
        < (row.toNat + 1) * 2 ^ kind.tagBits := by rw [Nat.succ_mul]; omega
      _ ≤ 2 ^ (bits - kind.tagBits) * 2 ^ kind.tagBits := Nat.mul_le_mul_right _ hrow
      _ = 2 ^ bits := by rw [← Nat.pow_add, Nat.sub_add_cancel htag]
  refine ⟨_, encode_eq_ok.mpr ⟨tag, findIdx?_tables hget, rfl⟩, ?_⟩
  rwa [UInt32.toNat_ofNat_of_lt' (hlt.trans_le (Nat.pow_le_pow_right (by decide) hbits))]

end CodedKind

namespace Widths

variable {w w' : Widths} {column : Column} {t : TableId} {kind : CodedKind}

lemma size_eq_four : w.size column = 4 ↔ w.isLarge column = true := by
  unfold size
  split <;> simp [*]

lemma size_eq_two : w.size column = 2 ↔ w.isLarge column = false := by
  unfold size
  split <;> simp [*]

lemma largeTable_iff : w.largeTable t = true ↔ 2 ^ 16 ≤ w.counts.rows t := by
  rw [largeTable, decide_eq_true_eq]
  exact Nat.succ_le_iff.symm

lemma isLarge_coded_iff : w.isLarge (.coded kind) = true ↔
    ∃ t, some t ∈ kind.tables ∧ 2 ^ (16 - kind.tagBits) ≤ w.counts.rows t := by
  rw [← Bool.not_eq_false, isLarge_coded]
  push Not
  rfl

lemma Le.size_le (h : w.Le w') : w.size column ≤ w'.size column := by
  cases hsmall : w.isLarge column with
  | true => rw [size_eq_four.mpr hsmall, size_eq_four.mpr (h column hsmall)]
  | false =>
    rw [size_eq_two.mpr hsmall, size]
    split <;> decide

/-- More rows are counted, table by table, whichever numbers the tables have. -/
lemma le_of_counts_le {counts : RowCounts} (h : ∀ i (hi : i < 64), w.counts[i] ≤ counts[i]) :
    w.Le { w with counts } :=
  le_of_counts id id id fun t => UInt32.le_iff_toNat_le.mp (h t.number t.number_lt)

/-- The widths of index columns as the numbers of rows demand them. -/
structure FollowsRows (w : Widths) : Prop where
  /-- A column takes two bytes or four. -/
  two_or_four : ∀ column, w.size column = 2 ∨ w.size column = 4
  row : ∀ t, w.size (.row t) = 4 ↔ 2 ^ 16 ≤ w.counts.rows t
  run : ∀ t, w.size (.run t) = 4 ↔ 2 ^ 16 ≤ w.counts.rows t
  table : ∀ t, w.largeTable t = true ↔ 2 ^ 16 ≤ w.counts.rows t
  /-- The tag is the shortest that tells the tables of the list apart. -/
  tag : ∀ kind : CodedKind,
    2 ^ (kind.tagBits - 1) < kind.tables.length ∧ kind.tables.length ≤ 2 ^ kind.tagBits
  coded : ∀ kind, w.size (.coded kind) = 4 ↔
    ∃ t, some t ∈ kind.tables ∧ 2 ^ (16 - kind.tagBits) ≤ w.counts.rows t
  /-- Two bytes hold the code of each row that there is, where a coded column has but two. -/
  room : ∀ (kind : CodedKind) (t : TableId) (rid : UInt32), w.size (.coded kind) = 2 →
    some t ∈ kind.tables → rid.toNat ≤ w.counts.rows t →
      ∃ value, kind.encode t rid = .ok value ∧ value.toNat < 2 ^ 16
  /-- Where more rows are counted no column is narrower. -/
  mono : ∀ counts : RowCounts, (∀ i (hi : i < 64), w.counts[i] ≤ counts[i]) →
    ∀ column, w.size column ≤ ({ w with counts } : Widths).size column

/-- Index columns are as wide as the standard has them, whatever the rows and the heaps are, and
where they are narrow they have room for every row. -/
theorem followsRows (w : Widths) : w.FollowsRows where
  two_or_four column := by
    cases h : w.isLarge column with
    | true => exact .inr (size_eq_four.mpr h)
    | false => exact .inl (size_eq_two.mpr h)
  row _ := size_eq_four.trans isLarge_row
  run _ := size_eq_four.trans isLarge_run
  table _ := largeTable_iff
  tag kind := ⟨kind.lt_length_tables, kind.length_tables_le⟩
  coded _ := size_eq_four.trans isLarge_coded_iff
  room kind t rid hsize ht hrid := by
    have hrows := isLarge_coded.mp (size_eq_two.mp hsize) t ht
    have htag := kind.tagBits_le
    exact CodedKind.exists_encode_lt (by decide) (by omega) ht (hrid.trans_lt hrows)
  mono _ h _ := (le_of_counts_le h).size_le

/-- As many methods as two bytes have room for beside a tag of five bits. -/
def fullMethods : Widths := ⟨RowCounts.ofPairs [(6, 0x7FF)], 0⟩

/-- The last of these methods is still told in two bytes; one method more takes four. -/
theorem followsRows_fullMethods : fullMethods.size (.coded .hasCustomAttribute) = 2 ∧
    (∃ value, CodedKind.hasCustomAttribute.encode .methodDef 0x7FF = .ok value ∧
      value.toNat < 2 ^ 16) ∧
    (⟨RowCounts.ofPairs [(6, 0x800)], 0⟩ : Widths).size (.coded .hasCustomAttribute) = 4 := by
  have hsize : fullMethods.size (.coded .hasCustomAttribute) = 2 := by decide +kernel
  refine ⟨hsize, (followsRows fullMethods).room _ _ _ hsize (by decide) (by decide +kernel), ?_⟩
  exact ((followsRows _).coded _).mpr ⟨.methodDef, by decide, by decide +kernel⟩

end Widths

end CliImage
