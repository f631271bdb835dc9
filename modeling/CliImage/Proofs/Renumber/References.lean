import CliImage.Proofs.Table.CodedIndex
import CliImage.Proofs.Table.Stream
import CliImage.Renumber.Columns

/-! Renumbering the references to a table changes each cell that can name a row of it, once, and
nothing else. -/

namespace CliImage

/-- New numbers for the rows of each table. -/
abbrev RowNumbers := TableId → UInt32 → UInt32

namespace Column

/-- The cell that names the same row under its new number; the null row has none. -/
def follow (numbers : RowNumbers) (column : Column) (value : UInt32) : UInt32 :=
  match column with
  | .row t => numbers t value
  | .coded kind =>
    if value.toNat / 2 ^ kind.tagBits = 0 then value
    else
      match kind.decode value with
      | .ok (t, rid) => (kind.encode t (numbers t rid)).toOption.getD value
      | .error _ => value
  | _ => value

variable {kind : CodedKind} {f g : RowNumbers} {value : UInt32}

lemma follow_null (h : value.toNat / 2 ^ kind.tagBits = 0) :
    (Column.coded kind).follow f value = value := if_pos h

lemma follow_decoded {t : TableId} {rid new : UInt32} (hrow : value.toNat / 2 ^ kind.tagBits ≠ 0)
    (hold : kind.decode value = .ok (t, rid)) (hnew : kind.encode t (f t rid) = .ok new) :
    (Column.coded kind).follow f value = new := by
  rw [follow, if_neg hrow, hold]
  simp [hnew, Except.toOption]

lemma follow_error {e : Error} (hold : kind.decode value = .error e) :
    (Column.coded kind).follow f value = value := by
  rw [follow, hold]
  exact ite_self _

/-- A coded index of a table whose rows keep their numbers stays. -/
lemma follow_eq_self {t : TableId} {rid : UInt32} (hold : kind.decode value = .ok (t, rid))
    (hf : f t = id) : (Column.coded kind).follow f value = value := by
  by_cases hrow : value.toNat / 2 ^ kind.tagBits = 0
  · exact follow_null hrow
  · exact follow_decoded hrow hold (by rw [hf]; exact CodedKind.encode_decode hold)

/-- A cell stays where the tables whose rows it can name keep their numbers. -/
lemma follow_of_unnamed {column : Column} (h : ∀ t, column.references t = true → f t = id)
    (value : UInt32) : column.follow f value = value := by
  cases column with
  | row t => rw [follow, h t (by simp [references]), id]
  | coded kind =>
    cases hold : kind.decode value with
    | error e => exact follow_error hold
    | ok named =>
      obtain ⟨t, rid⟩ := named
      have hmem := List.mem_of_getElem? (CodedKind.decode_eq_ok.mp hold).1
      exact follow_eq_self hold (h t (by simp [references, hmem]))
  | _ => rfl

/-- Following twice is following at once, where no table is renumbered twice. -/
lemma follow_follow (hfg : ∀ t, f t = id ∨ g t = id) (column : Column) (value : UInt32) :
    column.follow g (column.follow f value) = column.follow (fun t => g t ∘ f t) value := by
  cases column with
  | coded kind =>
    by_cases hrow : value.toNat / 2 ^ kind.tagBits = 0
    · rw [follow_null hrow, follow_null hrow, follow_null hrow]
    cases hold : kind.decode value with
    | error e => rw [follow_error hold, follow_error hold, follow_error hold]
    | ok named =>
      obtain ⟨t, rid⟩ := named
      rcases hfg t with hf | hg
      · obtain ⟨new, hnew⟩ := CodedKind.encode_isOk_of_decode (r := g t rid) hold
        rw [follow_eq_self hold hf, follow_decoded hrow hold hnew,
          follow_decoded hrow hold (by simpa [hf] using hnew)]
      · obtain ⟨new, hnew⟩ := CodedKind.encode_isOk_of_decode (r := f t rid) hold
        rw [follow_decoded hrow hold hnew, follow_decoded hrow hold (by simpa [hg] using hnew)]
        exact follow_eq_self (CodedKind.decode_encode hnew).1 hg
  | _ => rfl

@[simp] lemma follow_id (column : Column) (value : UInt32) :
    column.follow (fun _ => id) value = value := by
  cases column with
  | coded kind =>
    cases hold : kind.decode value with
    | error e => exact follow_error hold
    | ok named => exact follow_eq_self hold rfl
  | _ => rfl

end Column

/-- A row whose cells follow the rows that they name. -/
def TableId.followRow (t : TableId) (numbers : RowNumbers) (row : Row) : Row :=
  row.mapIdx fun i value => ((t.columns[i]?).map fun c => c.follow numbers value).getD value

namespace RidMap

/-- The numbers that a map gives: those of its table change. -/
def numbers (map : RidMap) : RowNumbers := fun t => if t = map.table then map.get else id

variable {map : RidMap}

lemma numbers_of_ne {t : TableId} (h : t ≠ map.table) : map.numbers t = id := if_neg h

@[simp] lemma numbers_self : map.numbers map.table = map.get := if_pos rfl

lemma follow_of_not_references {column : Column} (h : column.references map.table = false)
    (value : UInt32) : column.follow map.numbers value = value :=
  Column.follow_of_unnamed (fun t ht => numbers_of_ne (by
    rintro rfl
    rw [h] at ht
    cases ht)) value

lemma cell_eq_ok {column : Column} (href : column.references map.table = true)
    {value new : UInt32} (h : map.cell column value = .ok new) :
    new = column.follow map.numbers value := by
  cases column with
  | row t =>
    obtain rfl : t = map.table := by simpa [Column.references] using href
    cases h
    simp [Column.follow]
  | coded kind =>
    simp only [cell] at h
    split at h
    · rename_i hnull
      cases h
      exact (Column.follow_null hnull).symm
    · rename_i hrow
      obtain ⟨⟨t, rid⟩, hold, h⟩ := Result.bind_eq_ok.mp h
      by_cases ht : t = map.table
      · simp only [ht, if_true] at h
        subst ht
        exact (Column.follow_decoded hrow hold (by simpa using h)).symm
      · simp only [ht, if_false] at h
        cases h
        exact (Column.follow_eq_self hold (numbers_of_ne ht)).symm
  | _ => simp [Column.references] at href

/-- The cells of the listed columns follow the rows that they name, and the count tells whether
any of them changed. -/
lemma row_spec {columns : List (Nat × Column)} (hnodup : (columns.map Prod.fst).Nodup)
    (href : ∀ c ∈ columns, c.2.references map.table = true) {row : Row} {n : Nat}
    (h : (map.row columns row n).failure = none) :
    (∀ i, (map.row columns row n).value[i]? = row[i]?.map fun value =>
      ((columns.lookup i).map fun c => c.follow map.numbers value).getD value) ∧
      n ≤ (map.row columns row n).count ∧
      ((map.row columns row n).count = n → (map.row columns row n).value = row) := by
  induction columns generalizing row n with
  | nil => simp [RidMap.row]
  | cons head rest ih =>
    obtain ⟨i₀, c₀⟩ := head
    obtain ⟨hfresh, hnodup'⟩ := List.nodup_cons.mp hnodup
    have hlookup : rest.lookup i₀ = none := by
      rw [List.lookup_eq_none_iff]
      intro c hc
      simpa using fun heq : i₀ = c.1 => hfresh (List.mem_map.mpr ⟨c, hc, heq.symm⟩)
    have href' := fun c hc => href c (List.mem_cons_of_mem _ hc)
    simp only [RidMap.row] at h ⊢
    cases hcell : map.cell c₀ (row.getD i₀ 0) with
    | error e => simp only [hcell, reduceCtorEq] at h
    | ok new =>
      have hnew := cell_eq_ok (href _ (List.mem_cons_self ..)) hcell
      simp only [hcell] at h ⊢
      split at h
      · rename_i hsame
        rw [if_pos hsame]
        obtain ⟨hvalue, hle, heq⟩ := ih hnodup' href' h
        refine ⟨fun i => ?_, hle, heq⟩
        rw [hvalue i, List.lookup_cons]
        by_cases hi : i = i₀
        · subst hi
          cases hrow : row[i]? with
          | none => rfl
          | some value =>
            rw [Array.getD_eq_getD_getElem?, hrow, Option.getD_some] at hnew hsame
            simp [hlookup, ← hnew, hsame]
        · simp [beq_false_of_ne hi]
      · rename_i hchanged
        rw [if_neg hchanged]
        obtain ⟨hvalue, hle, heq⟩ := ih hnodup' href' h
        refine ⟨fun i => ?_, by omega, fun hcount => by omega⟩
        rw [hvalue i, List.lookup_cons, Array.getElem?_setIfInBounds]
        by_cases hi : i = i₀
        · subst hi
          cases hrow : row[i]? with
          | none => simp [Array.getElem?_eq_none_iff.mp hrow]
          | some value =>
            rw [Array.getD_eq_getD_getElem?, hrow, Option.getD_some] at hnew
            simp [(Array.getElem?_eq_some_iff.mp hrow).1, hlookup, ← hnew]
        · simp [beq_false_of_ne hi, Ne.symm hi]

lemma mem_referencing {t : TableId} {i : Nat} {c : Column} :
    (i, c) ∈ map.referencing t ↔ t.columns[i]? = some c ∧ c.references map.table = true := by
  simp only [referencing, List.mem_map, List.mem_filter, Prod.exists, Prod.mk.injEq,
    List.mem_zipIdx_iff_getElem?]
  constructor
  · rintro ⟨_, _, ⟨hget, href⟩, rfl, rfl⟩
    exact ⟨hget, href⟩
  · rintro ⟨hget, href⟩
    exact ⟨c, i, ⟨hget, href⟩, rfl, rfl⟩

lemma nodup_referencing (map : RidMap) (t : TableId) :
    ((map.referencing t).map Prod.fst).Nodup := by
  rw [referencing, List.map_map]
  refine (List.filter_sublist.map _).nodup ?_
  change (t.columns.zipIdx.map fun x => x.2).Nodup
  rw [show (fun x : Column × Nat => x.2) = Prod.snd from rfl, List.zipIdx_map_snd]
  exact List.nodup_range'

lemma lookup_referencing (map : RidMap) (t : TableId) (i : Nat) (value : UInt32) :
    (((map.referencing t).lookup i).map fun c => c.follow map.numbers value).getD value =
      ((t.columns[i]?).map fun c => c.follow map.numbers value).getD value := by
  cases hlookup : (map.referencing t).lookup i with
  | some c =>
    obtain ⟨before, after, hsplit, -⟩ := List.lookup_eq_some_iff.mp hlookup
    have hmem : (i, c) ∈ map.referencing t := by simp [hsplit]
    rw [(mem_referencing.mp hmem).1]
  | none =>
    cases hget : t.columns[i]? with
    | none => rfl
    | some c =>
      cases href : c.references map.table with
      | true =>
        have hmem : (i, c) ∈ map.referencing t := mem_referencing.mpr ⟨hget, href⟩
        have := List.lookup_eq_none_iff.mp hlookup (i, c) hmem
        simp at this
      | false => simp [follow_of_not_references href]

/-- Renumbering a row of a table. -/
lemma row_referencing {t : TableId} {row : Row} {n : Nat}
    (h : (map.row (map.referencing t) row n).failure = none) :
    (map.row (map.referencing t) row n).value = t.followRow map.numbers row ∧
      n ≤ (map.row (map.referencing t) row n).count ∧
      ((map.row (map.referencing t) row n).count = n → t.followRow map.numbers row = row) := by
  obtain ⟨hvalue, hle, heq⟩ := row_spec (nodup_referencing map t)
    (fun c hc => (mem_referencing.mp hc).2) h
  have hfollow : (map.row (map.referencing t) row n).value = t.followRow map.numbers row := by
    refine Array.ext_getElem? fun i => ?_
    rw [hvalue i, TableId.followRow, Array.getElem?_mapIdx]
    simp only [lookup_referencing]
  exact ⟨hfollow, hle, fun hcount => hfollow ▸ heq hcount⟩

lemma rows_referencing {t : TableId} {left i n : Nat} {rows : Array Row}
    (hi : i + left = rows.size)
    (h : (map.rows (map.referencing t) left i rows n).failure = none) :
    ∀ j, (map.rows (map.referencing t) left i rows n).value[j]? =
      rows[j]?.map fun row => if j < i then row else t.followRow map.numbers row := by
  induction left generalizing i n rows with
  | zero =>
    intro j
    rw [RidMap.rows]
    cases hrow : rows[j]? with
    | none => rfl
    | some row =>
      have : j < i := by
        have := (Array.getElem?_eq_some_iff.mp hrow).1
        omega
      simp [this]
  | succ left ih =>
    intro j
    simp only [RidMap.rows] at h ⊢
    cases hfailure : (map.row (map.referencing t) (rows.getD i #[]) n).failure with
    | some e => simp only [hfailure, reduceCtorEq] at h
    | none =>
      obtain ⟨hvalue, hle, heq⟩ := row_referencing hfailure
      simp only [hfailure] at h ⊢
      have hlt : i < rows.size := by omega
      have hget : rows.getD i #[] = rows[i] := by simp [hlt]
      have hrows : (if (map.row (map.referencing t) (rows.getD i #[]) n).count = n then rows
          else rows.setIfInBounds i (map.row (map.referencing t) (rows.getD i #[]) n).value) =
            rows.setIfInBounds i (t.followRow map.numbers rows[i]) := by
        by_cases hcount : (map.row (map.referencing t) (rows.getD i #[]) n).count = n
        · rw [if_pos hcount, ← hget, heq hcount, hget]
          refine Array.ext_getElem? fun k => ?_
          rw [Array.getElem?_setIfInBounds]
          by_cases hk : i = k
          · subst hk
            simp [hlt]
          · rw [if_neg hk]
        · rw [if_neg hcount, hvalue, hget]
      rw [hrows] at h ⊢
      rw [ih (by simp; omega) h j, Array.getElem?_setIfInBounds]
      by_cases hj : i = j
      · subst hj
        simp [hlt]
      · rw [if_neg hj]
        congr 1
        funext row
        congr 1
        simp only [eq_iff_iff]
        omega

lemma followRow_of_no_references {t : TableId} (h : map.referencing t = []) (row : Row) :
    t.followRow map.numbers row = row := by
  refine Array.ext_getElem? fun i => ?_
  rw [TableId.followRow, Array.getElem?_mapIdx]
  simp only [← lookup_referencing, h, List.lookup_nil, Option.map_none, Option.getD_none]
  exact Option.map_id'

lemma tables_spec {list : List TableId} (hnodup : list.Nodup) {ts : Tables} {n : Nat}
    (h : (map.tables list ts n).failure = none) :
    (map.tables list ts n).value = { ts with rows := (map.tables list ts n).value.rows } ∧
      ∀ t, (map.tables list ts n).value.table t =
        if t ∈ list then (ts.table t).map (t.followRow map.numbers) else ts.table t := by
  induction list generalizing ts n with
  | nil => simp [RidMap.tables]
  | cons t₀ rest ih =>
    obtain ⟨hfresh, hnodup'⟩ := List.nodup_cons.mp hnodup
    simp only [RidMap.tables, List.isEmpty_iff] at h ⊢
    by_cases hempty : map.referencing t₀ = []
    · simp only [hempty, if_true] at h ⊢
      obtain ⟨hheader, htable⟩ := ih hnodup' h
      refine ⟨hheader, fun t => ?_⟩
      rw [htable t]
      by_cases ht : t = t₀
      · subst ht
        simp [hfresh, funext (followRow_of_no_references hempty)]
      · simp [ht]
    · simp only [hempty, if_false] at h ⊢
      cases hfailure : (map.rows (map.referencing t₀) (ts.table t₀).size 0 (ts.table t₀) n).failure with
      | some e => simp [hfailure] at h
      | none =>
        simp only [hfailure] at h ⊢
        have hrows := rows_referencing (Nat.zero_add _) hfailure
        have hmap : (map.rows (map.referencing t₀) (ts.table t₀).size 0 (ts.table t₀) n).value =
            (ts.table t₀).map (t₀.followRow map.numbers) := by
          refine Array.ext_getElem? fun j => ?_
          rw [hrows j, Array.getElem?_map]
          simp
        rw [hmap] at h ⊢
        obtain ⟨hheader, htable⟩ := ih hnodup' h
        refine ⟨hheader, fun t => ?_⟩
        rw [htable t]
        by_cases ht : t = t₀
        · subst ht
          simp [hfresh]
        · simp [ht, Tables.table_setTable_of_ne _ ht]

end RidMap

/-- Renumbering that succeeds lets every cell follow the row it names, and changes nothing else. -/
theorem Tables.renumbered_eq_ok {ts after : Tables} {map : RidMap}
    (h : ts.renumbered map = .ok after) :
    after = { ts with rows := after.rows } ∧
      ∀ t, after.table t = (ts.table t).map (t.followRow map.numbers) := by
  rw [renumbered] at h
  split at h
  · cases h
  · rename_i hfailure
    cases h
    obtain ⟨hheader, htable⟩ := RidMap.tables_spec TableId.nodup_all hfailure
    exact ⟨hheader, fun t => by rw [Tables.renumber, htable t, if_pos (TableId.mem_all t)]⟩

end CliImage
