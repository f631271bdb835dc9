import CliImage.Proofs.Result
import CliImage.Proofs.Table.Stream
import Mathlib.Algebra.GroupWithZero.Nat
import Mathlib.Algebra.Order.BigOperators.Group.List
import Mathlib.Algebra.Order.Group.Nat

/-! Tables that have been read are written as the bytes that they were read from. -/

namespace CliImage

namespace Tables

variable {data : Bytes} {pos next : Nat}

/-- The bytes from the header to the last cell. -/
def extent (ts : Tables) (external : Option RowCounts) : Nat :=
  24 + 4 * (maskSlots ts.valid).length + (if ts.extra.isSome then 4 else 0) +
    (TableId.all.map fun t => ts.count t * (ts.widths external).rowSize t).sum

lemma passed_of_readCell {large : Bool} {value : UInt32}
    (h : readCell large data pos = .ok value next) :
    ∃ piece, data.Passed pos next piece ∧ piece.size = (if large then 4 else 2) ∧
      ∀ t column, (column = .u16 → large = false) →
        encodeCell t column large value = .ok piece := by
  obtain ⟨n, hn, rfl⟩ := Reader.map_eq_ok.mp h
  obtain ⟨hpassed, hlt⟩ := Reader.passed_of_number hn
  have hvalue : (UInt32.ofNat n).toNat = n := by
    refine UInt32.toNat_ofNat_of_lt' (hlt.trans_le ?_)
    split <;> decide
  refine ⟨_, hpassed, Bytes.size_ofNat .., fun t column hcolumn => ?_⟩
  unfold encodeCell Bytes.ofIndex Bytes.ofUInt32
  rw [hvalue]
  cases large with
  | true => rw [if_neg fun h => by simpa using hcolumn h.1, if_pos rfl, if_pos rfl]
  | false =>
    have hlt : n < 2 ^ 16 := by simpa using hlt
    rw [if_neg fun h => by omega, if_neg (by simp), if_pos hlt, if_neg (by simp)]

lemma passed_of_readCells {t : TableId} {columns : List (Column × Bool)}
    (hplain : ∀ c ∈ columns, c.1 = .u16 → c.2 = false) {cells : List UInt32}
    (hpos : pos ≤ data.size)
    (h : (columns.map Prod.snd).mapM readCell data pos = .ok cells next) :
    ∃ piece, data.Passed pos next piece ∧
      piece.size = (columns.map fun c => if c.2 then 4 else 2).sum ∧
      ∀ done, encodeRow t columns cells done = .ok (done ++ piece) := by
  induction columns generalizing pos cells with
  | nil =>
    rw [List.map_nil, List.mapM_nil, Reader.pure_eq_ok] at h
    obtain ⟨rfl, rfl⟩ := h
    exact ⟨#[], .nil hpos, rfl, fun done => by simp [encodeRow]⟩
  | cons c columns ih =>
    obtain ⟨cell, between, cells, hcell, hcells, rfl⟩ := Reader.mapM_cons_eq_ok.mp h
    obtain ⟨piece, hpassed, hsize, hencode⟩ := passed_of_readCell hcell
    obtain ⟨rest, hrest, hrestSize, hrestEncode⟩ :=
      ih (fun c hc => hplain c (List.mem_cons_of_mem _ hc)) hpassed.le_size hcells
    refine ⟨piece ++ rest, hpassed.append hrest, ?_, fun done => ?_⟩
    · rw [Array.size_append, hsize, hrestSize, List.map_cons, List.sum_cons]
    · rw [encodeRow, hencode t c.1 (hplain c (List.mem_cons_self ..)), Result.ok_bind,
        hrestEncode, Array.append_assoc]

lemma passed_of_readRow {w : Widths} {t : TableId} {row : Row} (hpos : pos ≤ data.size)
    (h : readRow (columnWidths w t) data pos = .ok row next) :
    ∃ piece, data.Passed pos next piece ∧ piece.size = w.rowSize t ∧
      ∀ done, encodeRow t (t.columns.map fun column => (column, w.isLarge column)) row.toList done =
        .ok (done ++ piece) := by
  obtain ⟨cells, hcells, rfl⟩ := Reader.map_eq_ok.mp h
  have hwidths : columnWidths w t =
      (t.columns.map fun column => (column, w.isLarge column)).map Prod.snd := by
    rw [List.map_map]
    rfl
  rw [hwidths] at hcells
  obtain ⟨piece, hpassed, hsize, hencode⟩ := passed_of_readCells (t := t)
    (fun c hc hplain => by
      obtain ⟨column, -, rfl⟩ := List.mem_map.mp hc
      subst hplain
      rfl) hpos hcells
  refine ⟨piece, hpassed, ?_, hencode⟩
  rw [hsize, List.map_map, Widths.rowSize, List.sum_eq_foldr]
  rfl

lemma passed_of_readRows {w : Widths} {t : TableId} {n : Nat} {before all : Array Row}
    (hpos : pos ≤ data.size)
    (h : Reader.manyInto (readRow (columnWidths w t)) n before data pos = .ok all next) :
    ∃ rows piece, all = before ++ rows ∧ data.Passed pos next piece ∧
      piece.size = n * w.rowSize t ∧
      ∀ done, encodeTable w t rows done = .ok (done ++ piece) := by
  induction n generalizing before pos with
  | zero =>
    obtain ⟨rfl, rfl⟩ := Reader.pure_eq_ok.mp h
    exact ⟨#[], #[], by simp, .nil hpos, by simp, fun done => by simp [encodeTable]⟩
  | succ n ih =>
    obtain ⟨row, between, hrow, hrows⟩ := Reader.manyInto_succ_eq_ok.mp h
    obtain ⟨piece, hpassed, hsize, hencode⟩ := passed_of_readRow hpos hrow
    obtain ⟨rows, rest, rfl, hrest, hrestSize, hrestEncode⟩ := ih hpassed.le_size hrows
    refine ⟨#[row] ++ rows, piece ++ rest, ?_, hpassed.append hrest, ?_, fun done => ?_⟩
    · rw [Array.push_eq_append, Array.append_assoc]
    · rw [Array.size_append, hsize, hrestSize, Nat.succ_mul, Nat.add_comm]
    · have := hrestEncode (done ++ piece)
      unfold encodeTable at this ⊢
      rw [Array.foldlM_append, ← Array.foldlM_toList, List.foldlM_cons, hencode, Result.ok_bind,
        List.foldlM_nil]
      rw [← Array.append_assoc, ← this]
      rfl

lemma passed_of_readTables {w : Widths} {own : RowCounts} {list : List TableId}
    (hnodup : list.Nodup) {before rows : Vector (Array Row) TableId.count} (hpos : pos ≤ data.size)
    (h : readTables w own list before data pos = .ok rows next) :
    ∃ piece, data.Passed pos next piece ∧
      piece.size = (list.map fun t => own.rows t * w.rowSize t).sum ∧
      ∀ done, list.foldlM (fun done t => encodeTable w t (rows.get ⟨t.slot, t.slot_lt⟩) done) done =
        .ok (done ++ piece) := by
  induction list generalizing before pos with
  | nil =>
    rw [readTables, Reader.pure_eq_ok] at h
    obtain ⟨rfl, rfl⟩ := h
    exact ⟨#[], .nil hpos, rfl, fun done => by rw [Array.append_empty, List.foldlM_nil]; rfl⟩
  | cons t list ih =>
    obtain ⟨hfresh, hnodup⟩ := List.nodup_cons.mp hnodup
    rw [readTables, Reader.bind_eq_ok] at h
    obtain ⟨first, between, hfirst, h⟩ := h
    obtain ⟨_, piece, hall, hpassed, hsize, hencode⟩ := passed_of_readRows hpos hfirst
    rw [Array.empty_append] at hall
    subst hall
    obtain ⟨rest, hrest, hrestSize, hrestEncode⟩ := ih hnodup hpassed.le_size h
    -- The rest does not write over the rows of this table.
    have hrows : rows.get ⟨t.slot, t.slot_lt⟩ = first := by
      rw [(rows_of_readTables hnodup h t).1 hfresh, get_slot, Vector.getElem_set_self]
    refine ⟨piece ++ rest, hpassed.append hrest, ?_, fun done => ?_⟩
    · rw [Array.size_append, hsize, hrestSize, List.map_cons, List.sum_cons]
    · rw [List.foldlM_cons, hrows, hencode, Result.ok_bind, hrestEncode, Array.append_assoc]

/-- The row counts stand one behind the other, and there are none for tables that are absent. -/
lemma passed_of_readCounts {valid : UInt64} {own : RowCounts} (hpos : pos ≤ data.size)
    (h : readCounts valid data pos = .ok own next) :
    data.Passed pos next ((maskSlots valid).foldl
      (fun done slot => done ++ Bytes.ofUInt32 (own.toArray.getD slot 0)) #[]) ∧
    ∀ slot (h : slot < 64), slot ∉ maskSlots valid → own[slot] = 0 := by
  obtain ⟨pairs, hpairs, rfl⟩ := Reader.map_eq_ok.mp h
  have hpair (slot pos : Nat) (p : Nat × UInt32) (next : Nat) (h : (do
      if (TableId.ofNumber? slot).isNone then Reader.fail (.fault (.unknownTable slot))
      let n ← Reader.u32
      pure (slot, n) : Reader (Nat × UInt32)) data pos = .ok p next) :
      p.1 = slot ∧ data.Passed pos next (Bytes.ofUInt32 p.2) := by
    obtain ⟨-, h⟩ := Reader.unless_fail_eq_ok.mp h
    obtain ⟨n, _, hn, h⟩ := Reader.bind_eq_ok.mp h
    obtain ⟨rfl, rfl⟩ := Reader.pure_eq_ok.mp h
    exact ⟨rfl, Reader.passed_of_u32 hn⟩
  have hslots := Reader.map_of_mapM (fun slot pos p next h => (hpair slot pos p next h).1) hpairs
  refine ⟨?_, fun slot hlt => RowCounts.getElem_ofPairs_of_unlisted hslots hlt⟩
  rw [RowCounts.foldl_ofPairs hslots]
  exact Reader.passed_of_mapM (fun slot pos p next h => (hpair slot pos p next h).2) hpos hpairs

/-- Where the counts are those of the header, they are written as they stand in it. -/
lemma countBytes_eq {ts : Tables} (hknown : ∀ slot ∈ maskSlots ts.valid,
    (TableId.ofNumber? slot).isSome) (hpresent : ts.present = ts.valid) :
    ts.countBytes = (maskSlots ts.valid).foldl
      (fun done slot => done ++ Bytes.ofUInt32 (ts.counts.toArray.getD slot 0)) #[] := by
  rw [← hpresent, ← map_number_listed ts hknown, List.foldl_map, countBytes]
  refine List.foldl_ext _ _ _ fun done t _ => ?_
  have hget := ts.getElem_counts t.number_lt
  rw [Array.getD_eq_getD_getElem?, Vector.getElem?_toArray,
    Vector.getElem?_eq_getElem t.number_lt, Option.getD_some, hget, countAt_number,
    Bytes.ofUInt32, UInt32.toNat_ofNat', Bytes.ofNat_mod 4]

/-- Tables whose rows are as many as the header says count as many again. -/
lemma counts_eq {ts : Tables} {own : RowCounts} (hrows : ∀ t, ts.count t = own.rows t)
    (hknown : ∀ slot ∈ maskSlots ts.valid, (TableId.ofNumber? slot).isSome)
    (habsent : ∀ slot (h : slot < 64), slot ∉ maskSlots ts.valid → own[slot] = 0) :
    ts.counts = own ∧ ts.present = ts.valid := by
  have hcounts : ts.counts = own := by
    refine Vector.ext fun slot hlt => ?_
    rw [getElem_counts _ hlt]
    by_cases hslot : slot ∈ maskSlots ts.valid
    · obtain ⟨t, ht⟩ := Option.isSome_iff_exists.mp (hknown slot hslot)
      obtain rfl := TableId.number_of_ofNumber? ht
      rw [countAt_number, hrows, RowCounts.rows_eq, UInt32.ofNat_toNat]
    · rw [habsent slot hlt hslot, countAt]
      cases ht : TableId.ofNumber? slot with
      | none => rfl
      | some t =>
        obtain rfl := TableId.number_of_ofNumber? ht
        rw [Option.map_some, Option.getD_some, hrows, RowCounts.rows_eq, habsent _ hlt hslot]
        rfl
  refine ⟨hcounts, UInt64.toNat_inj.mp (Nat.eq_of_testBit_eq fun slot => Bool.eq_iff_iff.mpr ?_)⟩
  refine testBit_present.trans ⟨fun h => h.elim id ?_, .inl⟩
  rintro ⟨t, hne, rfl⟩
  by_contra hbit
  refine hne ?_
  rw [hrows, RowCounts.rows_eq, habsent _ t.number_lt fun h => hbit (mem_maskSlots.mp h).2]
  rfl

lemma rowSize_pos (w : Widths) (t : TableId) : 1 ≤ w.rowSize t := by
  rw [Widths.rowSize]
  cases hcolumns : t.columns with
  | nil => simpa [hcolumns] using columns_ne_nil t
  | cons column rest =>
    rw [List.map_cons, List.foldr_cons, Widths.size]
    split <;> omega

/-- Each row takes up some of the bytes behind the header. -/
lemma count_le_of_read {external : Option RowCounts} {ts : Tables}
    (h : read data external = .ok ts) (t : TableId) : ts.count t + 24 ≤ data.size := by
  obtain ⟨next, hread⟩ := Reader.run_eq_ok.mp h
  obtain ⟨fixed, counted, own, before, hfixed, -, hown, -, hextra, hrows⟩ := parts_of_reader hread
  obtain ⟨hcounts, -⟩ := passed_of_readCounts hfixed.le_size hown
  have hextra := hextra hcounts.le_size
  obtain ⟨body, hbody, hsize, -⟩ := passed_of_readTables TableId.nodup_all hextra.le_size hrows
  have hcount : ts.count t = own.rows t :=
    ((rows_of_readTables TableId.nodup_all hrows t).2 (TableId.mem_all t)).1
  have hheader : 0 + 24 = fixed := by
    rw [← hfixed.size]
    simp
  have hbefore : fixed ≤ before := hcounts.le.trans hextra.le
  have hnext : before + body.size ≤ data.size := hbody.size.trans_le hbody.le_size
  have hrow : own.rows t ≤ body.size := by
    rw [hsize]
    apply (Nat.le_mul_of_pos_right _ (rowSize_pos _ t)).trans
    exact List.le_sum_of_mem (List.mem_map_of_mem (TableId.mem_all t))
  omega

/-- Tables are written as the bytes that they were read from, filled up with zeros. -/
theorem encode_of_read {external : Option RowCounts} {ts : Tables}
    (h : read data external = .ok ts) :
    reader external data 0 = .ok ts (ts.extent external) ∧ ts.extent external ≤ data.size ∧
      ts.encode external = .ok (Bytes.padTo (data.extract 0 (ts.extent external)) 4) := by
  obtain ⟨hformed, -⟩ := formed_of_read h
  obtain ⟨next, hread⟩ := Reader.run_eq_ok.mp h
  obtain ⟨fixed, counted, own, before, hfixed, -, hown, -, hextra, hrows⟩ := parts_of_reader hread
  obtain ⟨hcounts, habsent⟩ := passed_of_readCounts hfixed.le_size hown
  have hextra := hextra hcounts.le_size
  obtain ⟨body, hbody, hsize, hencode⟩ :=
    passed_of_readTables TableId.nodup_all hextra.le_size hrows
  have hcount (t : TableId) : ts.count t = own.rows t :=
    ((rows_of_readTables TableId.nodup_all hrows t).2 (TableId.mem_all t)).1
  obtain ⟨hown, hpresent⟩ := counts_eq hcount hformed.known habsent
  have hwidths : ts.widths external = ⟨own.withExternal external, ts.heapSizes⟩ := by
    rw [widths, hown]
  have hheader : data.Passed 0 before ts.encodeHeader := by
    have := hfixed.append (hcounts.append hextra)
    rw [← hown, ← countBytes_eq hformed.known hpresent] at this
    rw [encodeHeader_eq, hpresent]
    simpa only [Array.append_assoc] using this
  have hwritten : ts.encode external = .ok (Bytes.padTo (data.extract 0 next) 4) := by
    have hall : TableId.all.foldlM (fun done t => encodeTable (ts.widths external) t (ts.table t)
        done) ts.encodeHeader = .ok (ts.encodeHeader ++ body) := by
      rw [hwidths]
      exact hencode ts.encodeHeader
    rw [(hheader.append hbody).extract]
    exact Result.bind_eq_ok.mpr ⟨_, hall, rfl⟩
  have hnext : next = ts.extent external := by
    have hfixed : 0 + 24 = fixed := by
      rw [← hfixed.size]
      simp
    have hcounts : fixed + 4 * (maskSlots ts.valid).length = counted := by
      rw [← hcounts.size, Bytes.size_foldl_ofUInt32, Array.size_empty, Nat.zero_add]
    have hextra : counted + (if ts.extra.isSome then 4 else 0) = before := by
      rw [← hextra.size]
      cases ts.extra <;> simp
    have hrows : before + (TableId.all.map fun t =>
        ts.count t * (ts.widths external).rowSize t).sum = next := by
      rw [← hbody.size, hsize, hwidths]
      simp only [hcount]
    rw [extent]
    omega
  rw [← hnext]
  exact ⟨hread, hbody.le_size, hwritten⟩

/-- Debug tables of one scope, whose method stands in another file, and a byte behind them. -/
def scopes : Bytes := #[
  0, 0, 0, 0, 2, 0, 64, 1, 0, 0, 0, 0, 0, 0, 6, 0, 0, 0, 0, 0, 0, 0, 0, 0, 0, 0, 0, 0, 1, 0, 0, 0,
  7, 7, 7, 7, 1, 1, 1, 0, 2, 0, 3, 0, 4, 0, 16, 0, 0, 0, 32, 0, 0, 0, 255]

/-- With that many methods a method takes four bytes; the counts list an empty table too. -/
theorem encode_of_read_scopes : ∃ ts, read scopes (RowCounts.ofPairs [(6, 70000)]) = .ok ts ∧
    ts.count .localScope = 1 ∧ ts.encode (RowCounts.ofPairs [(6, 70000)]) =
      .ok (Bytes.padTo (scopes.extract 0 54) 4) := by
  obtain ⟨ts, hread, htest⟩ := Result.exists_of_holds
    (x := read scopes (RowCounts.ofPairs [(6, 70000)]))
    (p := fun ts => ts.count .localScope == 1 &&
      ts.extent (RowCounts.ofPairs [(6, 70000)]) == 54) (by decide +kernel)
  simp only [Bool.and_eq_true, beq_iff_eq] at htest
  obtain ⟨hcount, hextent⟩ := htest
  obtain ⟨-, -, hencode⟩ := encode_of_read hread
  rw [hextent] at hencode
  exact ⟨ts, hread, hcount, hencode⟩

end Tables

end CliImage
