import CliImage.Proofs.Result
import CliImage.Table.CodedIndex

/-! A coded index names one table and one row of it; encoding and decoding undo each other as far as
the row fits above the tag. -/

namespace CliImage.CodedKind

variable {kind : CodedKind} {t : TableId} {row value : UInt32}

lemma length_tables_le (kind : CodedKind) : kind.tables.length ≤ 2 ^ kind.tagBits := by
  cases kind <;> decide

lemma tagBits_le (kind : CodedKind) : kind.tagBits ≤ 5 := by
  cases kind <;> decide

/-- Row and tag share the bits of a cell. -/
lemma two_pow_eq (kind : CodedKind) : 2 ^ 32 = 2 ^ kind.tagBits * 2 ^ (32 - kind.tagBits) := by
  rw [← Nat.pow_add]
  congr 1
  have := tagBits_le kind
  omega

/-- A table stands once in the list. -/
lemma findIdx?_tables {tag : Nat} (h : kind.tables[tag]? = some (some t)) :
    kind.tables.findIdx? (· == some t) = some tag := by
  have hall : ∀ kind ∈ all, ∀ tag < kind.tables.length,
      ∀ t ∈ kind.tables[tag]?.join, kind.tables.findIdx? (· == some t) = some tag := by decide
  exact hall kind (mem_all kind) tag (List.getElem?_eq_some_iff.mp h).1 t (by simp [h])

lemma decode_eq_ok : kind.decode value = .ok (t, row) ↔
    kind.tables[value.toNat % 2 ^ kind.tagBits]? = some (some t) ∧
      row = UInt32.ofNat (value.toNat / 2 ^ kind.tagBits) := by
  simp only [decode]
  split
  · rename_i table htable
    simp [htable, eq_comm]
  · rename_i hno
    simp only [reduceCtorEq, false_iff, not_and]
    exact fun h => absurd h (hno t)

lemma encode_eq_ok : kind.encode t row = .ok value ↔
    ∃ tag, kind.tables.findIdx? (· == some t) = some tag ∧
      value = UInt32.ofNat (row.toNat * 2 ^ kind.tagBits + tag) := by
  unfold encode
  cases kind.tables.findIdx? (· == some t) with
  | some tag => simp only [Except.ok.injEq, Option.some.injEq, exists_eq_left', eq_comm]
  | none => simp

lemma encode_decode (h : kind.decode value = .ok (t, row)) : kind.encode t row = .ok value := by
  obtain ⟨htable, rfl⟩ := decode_eq_ok.mp h
  refine encode_eq_ok.mpr ⟨_, findIdx?_tables htable, ?_⟩
  have hle : value.toNat / 2 ^ kind.tagBits ≤ value.toNat := Nat.div_le_self ..
  rw [UInt32.toNat_ofNat_of_lt' (hle.trans_lt value.toNat_lt), Nat.div_add_mod', UInt32.ofNat_toNat]

/-- A row that is encoded keeps its table, even where its number does not fit above the tag. -/
lemma decode_encode (h : kind.encode t row = .ok value) :
    kind.decode value = .ok (t, UInt32.ofNat (value.toNat / 2 ^ kind.tagBits)) ∧
      value.toNat / 2 ^ kind.tagBits = row.toNat % 2 ^ (32 - kind.tagBits) := by
  obtain ⟨tag, htag, rfl⟩ := encode_eq_ok.mp h
  obtain ⟨hlt, hmatch, -⟩ := List.findIdx?_eq_some_iff_getElem.mp htag
  have htagLt : tag < 2 ^ kind.tagBits := hlt.trans_le (length_tables_le kind)
  have hvalue : (UInt32.ofNat (row.toNat * 2 ^ kind.tagBits + tag)).toNat =
      (row.toNat * 2 ^ kind.tagBits + tag) % (2 ^ kind.tagBits * 2 ^ (32 - kind.tagBits)) := by
    rw [UInt32.toNat_ofNat', two_pow_eq kind]
  rw [hvalue]
  constructor
  · refine decode_eq_ok.mpr ⟨?_, by rw [hvalue]⟩
    rw [hvalue, Nat.mod_mul_right_mod, Nat.mul_add_mod', Nat.mod_eq_of_lt htagLt,
      List.getElem?_eq_getElem hlt]
    simpa using hmatch
  · rw [Nat.mod_mul_right_div_self, Nat.mul_comm, Nat.mul_add_div (Nat.two_pow_pos _),
      Nat.div_eq_of_lt htagLt, Nat.add_zero]

lemma encode_isOk_of_decode {r : UInt32} (h : kind.decode value = .ok (t, row)) :
    ∃ new, kind.encode t r = .ok new := by
  obtain ⟨tag, htag, -⟩ := encode_eq_ok.mp (encode_decode h)
  exact ⟨_, encode_eq_ok.mpr ⟨tag, htag, rfl⟩⟩

lemma mem_tables_of_decode (h : kind.decode value = .ok (t, row)) : some t ∈ kind.tables :=
  List.mem_of_getElem? (decode_eq_ok.mp h).1

lemma toNat_of_decode (h : kind.decode value = .ok (t, row)) :
    row.toNat = value.toNat / 2 ^ kind.tagBits := by
  obtain ⟨-, rfl⟩ := decode_eq_ok.mp h
  exact UInt32.toNat_ofNat_of_lt' ((Nat.div_le_self ..).trans_lt value.toNat_lt)

lemma row_lt_of_decode (h : kind.decode value = .ok (t, row)) :
    row.toNat < 2 ^ (32 - kind.tagBits) := by
  rw [toNat_of_decode h]
  apply Nat.div_lt_of_lt_mul
  rw [← two_pow_eq]
  exact value.toNat_lt

/-- Where the row fits nothing of it is lost. -/
lemma decode_encode_of_fits (h : kind.encode t row = .ok value)
    (hrow : row.toNat < 2 ^ (32 - kind.tagBits)) : kind.decode value = .ok (t, row) := by
  obtain ⟨hdecode, hmod⟩ := decode_encode h
  rw [hmod, Nat.mod_eq_of_lt hrow, UInt32.ofNat_toNat] at hdecode
  exact hdecode

lemma exists_encode (h : some t ∈ kind.tables) (row : UInt32) :
    ∃ value, kind.encode t row = .ok value := by
  cases htag : kind.tables.findIdx? (· == some t) with
  | some tag => exact ⟨_, encode_eq_ok.mpr ⟨tag, htag, rfl⟩⟩
  | none => exact absurd (List.findIdx?_eq_none_iff.mp htag _ h) (by simp)

/-- Two coded indexes with one tag decode alike. -/
lemma decode_of_sameTag {value' row' : UInt32} (h : kind.decode value' = .ok (t, row'))
    (htag : value.toNat % 2 ^ kind.tagBits = value'.toNat % 2 ^ kind.tagBits) :
    kind.decode value = .ok (t, UInt32.ofNat (value.toNat / 2 ^ kind.tagBits)) :=
  decode_eq_ok.mpr ⟨by rw [htag, (decode_eq_ok.mp h).1], rfl⟩

/-- A table has one tag. -/
lemma tag_eq_of_decode {value' row' : UInt32} (h : kind.decode value = .ok (t, row))
    (h' : kind.decode value' = .ok (t, row')) :
    value.toNat % 2 ^ kind.tagBits = value'.toNat % 2 ^ kind.tagBits := by
  have htag := findIdx?_tables (decode_eq_ok.mp h).1
  have htag' := findIdx?_tables (decode_eq_ok.mp h').1
  exact Option.some.inj (htag.symm.trans htag')

lemma lt_iff_of_decode {value' row' : UInt32} (h : kind.decode value = .ok (t, row))
    (h' : kind.decode value' = .ok (t, row')) : value < value' ↔ row < row' := by
  have hsplit := Nat.div_add_mod value.toNat (2 ^ kind.tagBits)
  have hsplit' := Nat.div_add_mod value'.toNat (2 ^ kind.tagBits)
  have htag := tag_eq_of_decode h h'
  calc value < value' ↔ 2 ^ kind.tagBits * (value.toNat / 2 ^ kind.tagBits) <
          2 ^ kind.tagBits * (value'.toNat / 2 ^ kind.tagBits) := by
        rw [UInt32.lt_iff_toNat_lt]
        omega
    _ ↔ row < row' := by
        rw [Nat.mul_lt_mul_left (Nat.two_pow_pos _), ← toNat_of_decode h, ← toNat_of_decode h',
          UInt32.lt_iff_toNat_lt]

end CliImage.CodedKind
