import CliImage.Proofs.Table.CodedIndex
import CliImage.Renumber.Columns

/-! Coded indexes and the rows that they name tell of each other without loss, and in one order, which
renumbering by an increasing map keeps. -/

namespace CliImage

namespace RidMap

variable {map : RidMap} {kind : CodedKind} {t : TableId} {row last value : UInt32}

lemma cell_of_other (hvalue : kind.decode value = .ok (t, row)) (ht : t ≠ map.table) :
    map.cell (.coded kind) value = .ok value := by
  rw [cell]
  split
  · rfl
  · rw [hvalue, Result.ok_bind]
    exact if_neg ht

/-- The null row is no exception, since its number stays. -/
lemma cell_of_own (hvalue : kind.decode value = .ok (map.table, row)) :
    map.cell (.coded kind) value = kind.encode map.table (map.get row) := by
  rw [cell]
  split
  · rename_i hnull
    obtain rfl : row = 0 := UInt32.toNat_inj.mp ((CodedKind.toNat_of_decode hvalue).trans hnull)
    rw [get_zero, CodedKind.encode_decode hvalue]
  · rw [hvalue, Result.ok_bind]
    exact if_pos rfl

/-- The map keeps the order of the rows up to a last one. -/
def Increases (map : RidMap) (last : UInt32) : Prop :=
  ∀ row row', row < row' → row' ≤ last → map.get row < map.get row'

lemma Increases.get_le (h : map.Increases last) (hrow : row ≤ last) :
    map.get row ≤ map.get last := by
  rcases UInt32.lt_or_eq_of_le hrow with hlt | rfl
  · exact UInt32.le_of_lt (h row last hlt (UInt32.le_refl _))
  · exact UInt32.le_refl _

end RidMap

namespace CodedKind

variable {kind : CodedKind} {map : RidMap} {t : TableId} {row row' last value value' : UInt32}

lemma exists_cell_lt (hmap : map.Increases last)
    (hfit : (map.get last).toNat < 2 ^ (32 - kind.tagBits)) (hvalue : kind.decode value = .ok (t, row))
    (hvalue' : kind.decode value' = .ok (t, row')) (hlt : value < value') (hlast : row' ≤ last) :
    ∃ new new', map.cell (.coded kind) value = .ok new ∧ map.cell (.coded kind) value' = .ok new' ∧
      new < new' := by
  by_cases ht : t = map.table
  · subst ht
    have hrow : row < row' := (lt_iff_of_decode hvalue hvalue').mp hlt
    have hget := hmap row row' hrow hlast
    have hget' := UInt32.lt_iff_toNat_lt.mp hget
    have hle := UInt32.le_iff_toNat_le.mp (hmap.get_le hlast)
    obtain ⟨new, hnew⟩ := encode_isOk_of_decode (r := map.get row) hvalue
    obtain ⟨new', hnew'⟩ := encode_isOk_of_decode (r := map.get row') hvalue
    refine ⟨new, new', (RidMap.cell_of_own hvalue).trans hnew,
      (RidMap.cell_of_own hvalue').trans hnew', ?_⟩
    rw [lt_iff_of_decode (decode_encode_of_fits hnew (by omega))
      (decode_encode_of_fits hnew' (by omega))]
    exact hget
  · exact ⟨value, value', RidMap.cell_of_other hvalue ht, RidMap.cell_of_other hvalue' ht, hlt⟩

/-- Rows and coded indexes tell of each other, and in one order. -/
structure RoundTrips (kind : CodedKind) : Prop where
  decode : ∀ t, some t ∈ kind.tables → ∀ row : UInt32, row.toNat < 2 ^ (32 - kind.tagBits) →
    ∃ value, kind.encode t row = .ok value ∧ kind.decode value = .ok (t, row)
  encode : ∀ value t row, kind.decode value = .ok (t, row) →
    some t ∈ kind.tables ∧ row.toNat < 2 ^ (32 - kind.tagBits) ∧ kind.encode t row = .ok value
  lt : ∀ t row row' value value', row < row' → row'.toNat < 2 ^ (32 - kind.tagBits) →
    kind.encode t row = .ok value → kind.encode t row' = .ok value' → value < value'
  renumbered : ∀ (map : RidMap) (last : UInt32), map.Increases last →
    (map.get last).toNat < 2 ^ (32 - kind.tagBits) → ∀ value value' : UInt32, value < value' →
    value.toNat % 2 ^ kind.tagBits = value'.toNat % 2 ^ kind.tagBits →
    ∀ t row', kind.decode value' = .ok (t, row') → row' ≤ last →
    ∃ new new', map.cell (.coded kind) value = .ok new ∧ map.cell (.coded kind) value' = .ok new' ∧
      new < new'

theorem roundTrips (kind : CodedKind) : kind.RoundTrips where
  decode t ht row hrow := by
    obtain ⟨value, hvalue⟩ := exists_encode ht row
    exact ⟨value, hvalue, decode_encode_of_fits hvalue hrow⟩
  encode value t row h := ⟨mem_tables_of_decode h, row_lt_of_decode h, encode_decode h⟩
  lt t row row' value value' hrow hfit hvalue hvalue' := by
    have hlt := UInt32.lt_iff_toNat_lt.mp hrow
    rw [lt_iff_of_decode (decode_encode_of_fits hvalue (by omega))
      (decode_encode_of_fits hvalue' hfit)]
    exact hrow
  renumbered map last hmap hfit value value' hlt htag t row' hvalue' hlast :=
    exists_cell_lt hmap hfit (decode_of_sameTag hvalue' htag) hvalue' hlt hlast

end CodedKind

end CliImage
