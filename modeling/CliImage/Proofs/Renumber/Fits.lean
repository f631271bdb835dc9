import CliImage.Proofs.Renumber.Monotone
import CliImage.Proofs.Renumber.Ownership
import CliImage.Proofs.Renumber.Sorted
import CliImage.Proofs.Table.Fits

/-! Cells still fit once methods are renumbered and tables sorted: what names a row names one that
exists. Only a list that begins behind the last row can need one number more than there are rows. -/

namespace CliImage

variable {w w' : Widths} {t : TableId} {row : Row} {numbers : RowNumbers}

/-- Numbers that lead to rows that are counted, as far as they change. -/
def RowNumbers.Within (numbers : RowNumbers) (w : Widths) : Prop :=
  ∀ t r, numbers t r = r ∨ (numbers t r).toNat ≤ w.counts.rows t

lemma Column.Fits.follow {column : Column} {value : UInt32} (hnumbers : numbers.Within w)
    (h : column.Fits w value) : column.Fits w (column.follow numbers value) := by
  cases column with
  | row t =>
    rw [Column.follow]
    obtain hsame | hle := hnumbers t value
    · rwa [hsame]
    · refine (em (w.isLarge (.row t) = true)).imp_right fun hsmall => ?_
      rw [Widths.isLarge_row] at hsmall
      omega
  | coded kind =>
    by_cases hrow : value.toNat / 2 ^ kind.tagBits = 0
    · rwa [Column.follow_null hrow]
    cases hold : kind.decode value with
    | error e => rwa [Column.follow_error hold]
    | ok named =>
      obtain ⟨t, rid⟩ := named
      obtain ⟨new, hnew⟩ := CodedKind.encode_isOk_of_decode (r := numbers t rid) hold
      rw [Column.follow_decoded hrow hold hnew]
      obtain hsame | hle := hnumbers t rid
      · rw [hsame, CodedKind.encode_decode hold] at hnew
        rwa [← Except.ok.inj hnew]
      · cases hlarge : w.isLarge (.coded kind) with
        | true => exact .inl hlarge
        | false =>
          -- the tag is appended to a row number that leaves room for it
          have hlt := Widths.isLarge_coded.mp hlarge t
            (List.mem_of_getElem? (CodedKind.decode_eq_ok.mp hold).1)
          obtain ⟨tag, htag, rfl⟩ := CodedKind.encode_eq_ok.mp hnew
          have htagLt : tag < 2 ^ kind.tagBits :=
            (List.findIdx?_eq_some_iff_getElem.mp htag).1.trans_le kind.length_tables_le
          have hpow : 2 ^ (16 - kind.tagBits) * 2 ^ kind.tagBits = 2 ^ 16 := by
            have := kind.tagBits_le
            rw [← Nat.pow_add]
            congr 1
            omega
          refine .inr ?_
          rw [UInt32.toNat_ofNat']
          calc ((numbers t rid).toNat * 2 ^ kind.tagBits + tag) % 2 ^ 32
              ≤ (numbers t rid).toNat * 2 ^ kind.tagBits + tag := Nat.mod_le ..
            _ < ((numbers t rid).toNat + 1) * 2 ^ kind.tagBits := by rw [Nat.succ_mul]; omega
            _ ≤ 2 ^ (16 - kind.tagBits) * 2 ^ kind.tagBits := Nat.mul_le_mul_right _ (by omega)
            _ = 2 ^ 16 := hpow
  | _ => exact h

lemma Column.fits_zero (column : Column) : column.Fits w 0 := .inr (by decide)

namespace Widths

lemma FitsRow.follow (hnumbers : numbers.Within w) (h : w.FitsRow t row) :
    w.FitsRow t (t.followRow numbers row) := by
  intro i column value hcolumn hvalue
  rw [Tables.getElem?_followRow, hcolumn] at hvalue
  obtain ⟨old, hold, rfl⟩ := Option.map_eq_some_iff.mp hvalue
  exact (h i column old hcolumn hold).follow hnumbers

lemma FitsRow.set {i : Nat} {column : Column} {value : UInt32} (h : w.FitsRow t row)
    (hcolumn : t.columns[i]? = some column) (hvalue : column.Fits w value) :
    w.FitsRow t (row.setIfInBounds i value) := by
  intro j column' value' hcolumn' hvalue'
  rw [Array.getElem?_setIfInBounds] at hvalue'
  by_cases hj : i = j
  · subst hj
    rw [hcolumn] at hcolumn'
    cases hcolumn'
    rw [if_pos rfl] at hvalue'
    split at hvalue'
    · cases hvalue'
      exact hvalue
    · cases hvalue'
  · rw [if_neg hj] at hvalue'
    exact h j column' value' hcolumn' hvalue'

lemma FitsRow.getD {i : Nat} {column : Column} (h : w.FitsRow t row)
    (hcolumn : t.columns[i]? = some column) : column.Fits w (row.getD i 0) := by
  rw [Array.getD_eq_getD_getElem?]
  cases hvalue : row[i]? with
  | none => exact column.fits_zero
  | some value => exact h i column value hcolumn hvalue

end Widths

namespace Tables

/-- All cells of all rows fit. -/
def Fit (w : Widths) (ts : Tables) : Prop := ∀ t, ∀ row ∈ ts.table t, w.FitsRow t row

variable {before after : Tables} {orders : TableId → List Nat} {chosen : TableId → Prop}

lemma Fit.followed (h : before.Fit w) (hfollowed : Followed numbers before after)
    (hnumbers : numbers.Within w) : after.Fit w := by
  intro t row hrow
  rw [hfollowed.table] at hrow
  obtain ⟨old, hold, rfl⟩ := Array.mem_map.mp hrow
  exact (h t old hold).follow hnumbers

lemma newNumbers_within (hperm : ∀ t, (orders t).Perm (List.range (before.count t)))
    (hcounts : ∀ t, w.counts.rows t = before.count t) : (newNumbers orders).Within w := by
  intro t r
  rw [hcounts, newNumbers]
  rcases Nat.eq_zero_or_pos r.toNat with hzero | hpos
  · obtain rfl : r = 0 := UInt32.toNat_inj.mp hzero
    exact .inl rfl
  rcases Nat.lt_or_ge (before.count t) r.toNat with hlt | hle
  · exact .inl (get_ridMapOf_beyond (hperm t) hlt)
  · obtain ⟨k, hk, hplace⟩ := exists_place (hperm t) hpos hle
    refine .inr ?_
    rw [get_ridMapOf (hperm t) hplace (by omega), UInt32.toNat_ofNat']
    exact (Nat.mod_le ..).trans hk

lemma Fit.sorted (h : before.Fit w)
    (hsorted : SortedAs chosen orders (newNumbers orders) before after)
    (hcounts : ∀ t, w.counts.rows t = before.count t) : after.Fit w := by
  intro t row hrow
  rw [← Array.mem_toList_iff, hsorted.rows] at hrow
  obtain ⟨i, hi, rfl⟩ := List.mem_map.mp hrow
  have hlt : i < before.count t := List.mem_range.mp ((hsorted.perm t).mem_iff.mp hi)
  rw [Array.getD_eq_getD_getElem?, Array.getElem?_eq_getElem hlt, Option.getD_some]
  exact (h t _ (Array.getElem_mem hlt)).follow (newNumbers_within hsorted.perm hcounts)

/-- Without a key the rows of a table stay in their order. -/
lemma SortedAs.table_of_unkeyed (h : SortedAs chosen orders numbers before after)
    (hkey : t.sortKey? = none) : after.table t = (before.table t).map (t.followRow numbers) :=
  h.table_of_range (h.kept t (.inr (.inr hkey)))

end Tables

namespace MethodPlan

open Tables

variable {image : Image} {plan : MethodPlan}

lemma rids_within (himage : image.Arranged) (hfit : (ofImage image).rows.size < 2 ^ 32)
    (hcount : w.counts.rows .methodDef = (ofImage image).rows.size) :
    (ofImage image).rids.numbers.Within w := by
  intro t r
  obtain ⟨-, htable, hsize, -⟩ := ofImage_olds himage
  rw [RidMap.numbers, htable]
  split_ifs with ht
  · subst ht
    rcases Nat.eq_zero_or_pos r.toNat with hzero | hpos
    · obtain rfl : r = 0 := UInt32.toNat_inj.mp hzero
      exact .inl rfl
    rcases Nat.lt_or_ge (image.metadata.tables.count .methodDef) r.toNat with hlt | hle
    · exact .inl (RidMap.get_beyond (by omega))
    · obtain ⟨i, hi, hnew⟩ := exists_planned himage hfit hpos hle
      have := (Array.getElem?_eq_some_iff.mp hi).1
      exact .inr (by omega)
  · exact .inl rfl

lemma count_le_rows (himage : image.Arranged) :
    image.metadata.tables.count .methodDef ≤ (ofImage image).rows.size := by
  have := List.length_filterMap_le PlannedMethod.old? (ofImage image).rows.toList
  rwa [(ofImage_olds himage).1, List.length_range', Array.length_toList] at this

/-- Two bytes cannot tell where a list begins: one of a type behind all 65535 methods, or one of an
added method behind all 65535 parameters. -/
def Overruns (plan : MethodPlan) (ts : Tables) : Prop :=
  plan.rows.size = 0xFFFF ∧ (0x10000 : UInt32) ∈ plan.firstRows ∨
    ts.count .param = 0xFFFF ∧ ∃ method, plan.rows.toList.getLast? = some (.added method)

lemma fillParams_cons (stop : UInt32) (head : PlannedMethod × Row)
    (rest : List (PlannedMethod × Row)) :
    ∃ row, (fillParams stop (head :: rest)).1 = row :: (fillParams stop rest).1 := by
  obtain ⟨planned, row⟩ := head
  cases planned with
  | existing rid => exact ⟨row, rfl⟩
  | added method => exact ⟨_, rfl⟩

/-- An added method in the last row begins its parameters behind all. -/
lemma getLast?_fillParams {stop : UInt32} {planned : List (PlannedMethod × Row)} {method : Nat}
    {row : Row} (h : planned.getLast? = some (.added method, row)) :
    (fillParams stop planned).1.getLast? = some (row.setIfInBounds 5 stop) := by
  induction planned with
  | nil => cases h
  | cons head rest ih =>
    cases hlast : rest.getLast? with
    | none =>
      obtain rfl := List.getLast?_eq_none_iff.mp hlast
      cases h
      rfl
    | some last =>
      rw [List.getLast?_cons, hlast, Option.getD_some] at h
      obtain ⟨_, hcons⟩ := fillParams_cons stop head rest
      rw [hcons, List.getLast?_cons, ih (hlast.trans h), Option.getD_some]

/-- Added methods begin their parameters where an old row does, or behind all if none follows. -/
lemma forall_fillParams {p : UInt32 → Prop} {stop : UInt32}
    {planned : List (PlannedMethod × Row)}
    (hold : ∀ rid row, (.existing rid, row) ∈ planned → p (row.getD 5 0))
    (hstop : ∀ method row, planned.getLast? = some (.added method, row) → p stop) :
    (planned ≠ [] → p (fillParams stop planned).2) ∧
      ∀ row ∈ (fillParams stop planned).1, (∃ rid, (.existing rid, row) ∈ planned) ∨
        ∃ method old next, (.added method, old) ∈ planned ∧ p next ∧
          row = old.setIfInBounds 5 next := by
  induction planned with
  | nil => simp [fillParams]
  | cons head rest ih =>
    obtain ⟨hnext, hrows⟩ := ih (fun rid row hmem => hold rid row (List.mem_cons_of_mem _ hmem))
      fun method row hlast => hstop method row (by
        rw [List.getLast?_cons, hlast]
        rfl)
    have hrows : ∀ row ∈ (fillParams stop rest).1, (∃ rid, (.existing rid, row) ∈ head :: rest) ∨
        ∃ method old next, (.added method, old) ∈ head :: rest ∧ p next ∧
          row = old.setIfInBounds 5 next := by
      intro row hrow
      rcases hrows row hrow with ⟨rid, hmem⟩ | ⟨method, old, next, hmem, h⟩
      · exact .inl ⟨rid, List.mem_cons_of_mem _ hmem⟩
      · exact .inr ⟨method, old, next, List.mem_cons_of_mem _ hmem, h⟩
    obtain ⟨planned, row⟩ := head
    cases planned with
    | existing rid =>
      have hmem : (.existing rid, row) ∈ (.existing rid, row) :: rest := List.mem_cons_self ..
      exact ⟨fun _ => hold rid row hmem, List.forall_mem_cons.mpr ⟨.inl ⟨rid, hmem⟩, hrows⟩⟩
    | added method =>
      have hnext : p (fillParams stop rest).2 := by
        cases rest with
        | nil => exact hstop method row rfl
        | cons => exact hnext (by simp)
      exact ⟨fun _ => hnext, List.forall_mem_cons.mpr
        ⟨.inr ⟨method, row, _, List.mem_cons_self .., hnext, rfl⟩, hrows⟩⟩

section Apply

variable {before after : Tables} {addedRow : Nat → Result Row}

/-- What is made of each planned row. -/
lemma mem_zip_newRows {rows : List Row} (h : plan.newRows before addedRow = .ok rows) :
    (∀ rid row, (.existing rid, row) ∈ plan.rows.toList.zip rows →
      before.row? .methodDef rid = some row) ∧
    (∀ method row, (.added method, row) ∈ plan.rows.toList.zip rows →
      addedRow method = .ok row) ∧
    (plan.rows.toList.zip rows).getLast?.map Prod.fst = plan.rows.toList.getLast? := by
  obtain ⟨-, hmade⟩ := List.forall₂_iff_zip.mp (Result.mapM_eq_ok.mp h)
  refine ⟨fun rid row hmem => ?_, fun method row hmem => hmade hmem, ?_⟩
  · have hrow := hmade hmem
    simp only at hrow
    split at hrow
    · rename_i hfound
      cases hrow
      exact hfound
    · cases hrow
  · rw [← List.getLast?_map, List.map_fst_zip (by rw [length_newRows h, Array.length_toList])]

/-- The rows of a plan fit where no list of theirs overruns its column. -/
lemma fit_of_apply (hbefore : before.Fit w)
    (happly : (ofImage image).apply before addedRow = .ok after)
    (hadded : ∀ id row, addedRow id = .ok row → w.FitsRow .methodDef row)
    (hmethods : w.counts.rows .methodDef = (ofImage image).rows.size)
    (hparams : w.counts.rows .param = before.count .param)
    (hnot : ¬ (ofImage image).Overruns before) : after.Fit w := by
  obtain ⟨rows, hnew, rfl⟩ := apply_eq_ok happly
  obtain ⟨hexisting, hmade, hlast⟩ := mem_zip_newRows hnew
  intro t row hrow
  by_cases ht : t = .typeDef
  · subst ht
    rw [table_setTable_self] at hrow
    obtain ⟨i, hi, rfl⟩ := Array.getElem_of_mem hrow
    rw [setFirstRows, Array.size_mapIdx] at hi
    have hold := hbefore .typeDef _ (Array.getElem_mem hi)
    simp only [setFirstRows, Array.getElem_mapIdx]
    split
    · rename_i first hfirst
      refine hold.set (show TableId.typeDef.columns[5]? = some (.run .methodDef) from rfl) ?_
      have hmem := Array.mem_of_getElem? hfirst
      have hle := (firstRows_le image).2 first hmem
      refine (em _).imp_right fun hsmall => ?_
      rw [Widths.isLarge_run, hmethods] at hsmall
      by_contra hlarge
      have hfull : (ofImage image).rows.size = 0xFFFF := by omega
      have hfirst : first = 0x10000 := UInt32.toNat_inj.mp (by
        rw [show (0x10000 : UInt32).toNat = 0x10000 from rfl]
        omega)
      exact hnot (.inl ⟨hfull, hfirst ▸ hmem⟩)
    · exact hold
  · rw [table_setTable_of_ne _ ht] at hrow
    by_cases ht' : t = .methodDef
    · subst ht'
      rw [table_setTable_self, List.mem_toArray] at hrow
      have hstop : ∀ method row,
          ((ofImage image).rows.toList.zip rows).getLast? = some (.added method, row) →
            (Column.run .param).Fits w (UInt32.ofNat (before.count .param + 1)) := by
        intro method row hrow
        refine (em _).imp_right fun hsmall => ?_
        rw [Widths.isLarge_run, hparams] at hsmall
        rw [UInt32.toNat_ofNat']
        refine (Nat.mod_le ..).trans_lt ?_
        by_contra hlarge
        rw [hrow] at hlast
        exact hnot (.inr ⟨by omega, method, hlast.symm⟩)
      have hexisting (rid : Nat) (row : Row)
          (hmem : (.existing rid, row) ∈ (ofImage image).rows.toList.zip rows) :
          w.FitsRow .methodDef row :=
        hbefore _ row (mem_table_of_row? (hexisting rid row hmem))
      obtain ⟨-, hrows⟩ := forall_fillParams (p := (Column.run .param).Fits w)
        (fun rid row hmem => (hexisting rid row hmem).getD (i := 5) rfl) hstop
      obtain ⟨rid, hmem⟩ | ⟨method, old, next, hmem, hnext, rfl⟩ := hrows row hrow
      · exact hexisting rid row hmem
      · exact (hadded method old (hmade method old hmem)).set rfl hnext
    · rw [table_setTable_of_ne _ ht'] at hrow
      exact hbefore t row hrow

/-- A list that overruns its column stands in a row of the plan. -/
lemma exists_overrun (hformed : before.Formed) (htypes : before.count .typeDef = image.types.size)
    (happly : (ofImage image).apply before addedRow = .ok after)
    (hadded : ∀ id row, addedRow id = .ok row → row.size = TableId.methodDef.columns.length)
    (hover : (ofImage image).Overruns before) :
    ∃ t s, t.sortKey? = none ∧ t.columns[5]? = some (.run s) ∧ after.count s = 0xFFFF ∧
      ∃ row ∈ after.table t, row[5]? = some 0x10000 := by
  have hcount := count_of_apply happly
  obtain ⟨rows, hnew, rfl⟩ := apply_eq_ok happly
  obtain ⟨-, hmade, hlast⟩ := mem_zip_newRows hnew
  rcases hover with ⟨hfull, hfirst⟩ | ⟨hfull, method, hmethod⟩
  · refine ⟨.typeDef, .methodDef, rfl, rfl, by rw [hcount, if_pos rfl, hfull], ?_⟩
    obtain ⟨i, hi, hget⟩ := Array.getElem_of_mem hfirst
    have hlt : i < (before.table .typeDef).size := by
      rw [(firstRows_le image).1, ← htypes] at hi
      exact hi
    have hwidth := hformed.width .typeDef _ (Array.getElem_mem hlt)
    rw [table_setTable_self]
    refine ⟨(before.table .typeDef)[i].setIfInBounds 5 0x10000, Array.mem_of_getElem? (i := i) ?_, ?_⟩
    · rw [setFirstRows, Array.getElem?_mapIdx, Array.getElem?_eq_getElem hlt, Option.map_some,
        Array.getElem?_eq_getElem hi, hget]
    · rw [Array.getElem?_setIfInBounds, if_pos rfl, if_pos (by rw [hwidth]; decide)]
  · refine ⟨.methodDef, .param, rfl, rfl, by rw [hcount, if_neg (by decide), hfull], ?_⟩
    obtain ⟨⟨planned, row⟩, hrow, rfl⟩ := Option.map_eq_some_iff.mp (hlast.trans hmethod)
    have hwidth := hadded method row (hmade method row (List.mem_of_getLast? hrow))
    rw [table_setTable_of_ne _ (by decide), table_setTable_self]
    refine ⟨_, List.mem_toArray.mpr (List.mem_of_getLast? (getLast?_fillParams hrow)), ?_⟩
    rw [Array.getElem?_setIfInBounds, if_pos rfl, if_pos (by rw [hwidth]; decide), hfull]
    rfl

/-- Cells that do not fit stay so where sorting leaves the rows in their order. -/
lemma not_fit_of_overrun {sorted : Tables} {chosen : TableId → Prop}
    {orders : TableId → List Nat} (hsorted : SortedAs chosen orders numbers after sorted)
    {s : TableId} (hkey : t.sortKey? = none) (hcolumn : t.columns[5]? = some (.run s))
    (hcount : w.counts.rows s = 0xFFFF) (hrow : row ∈ after.table t)
    (hcell : row[5]? = some 0x10000) : ¬ sorted.Fit w := by
  intro hfit
  have hmem : t.followRow numbers row ∈ sorted.table t := by
    rw [hsorted.table_of_unkeyed hkey]
    exact Array.mem_map_of_mem hrow
  have hfits := hfit t _ hmem 5 (.run s) 0x10000 hcolumn (by
    rw [getElem?_followRow, hcell, hcolumn]
    rfl)
  rcases hfits with hlarge | hlt
  · rw [Widths.isLarge_run, hcount] at hlarge
    omega
  · exact absurd hlt (by decide)

end Apply

end MethodPlan

end CliImage
