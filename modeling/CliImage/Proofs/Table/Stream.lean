import CliImage.Proofs.Reader
import CliImage.Proofs.Result
import CliImage.Proofs.Table.RowCounts
import CliImage.Table.Stream
import Mathlib.Data.List.Nodup

/-! What the tables stream holds once it has been read, and that its bytes read back as the tables
they were written from. -/

namespace CliImage

namespace Tables

variable {data : Bytes} {pos next : Nat}

/-- Tables that a stream can hold: full rows, known tables, and the extra number where it is
announced. -/
structure Formed (ts : Tables) : Prop where
  width : ∀ t, ∀ row ∈ ts.table t, row.size = t.columns.length
  known : ∀ slot ∈ maskSlots ts.valid, (TableId.ofNumber? slot).isSome
  valid_ne : ts.valid ≠ 0
  extra : ts.extra.isSome = (ts.heapSizes &&& extraFlag != 0)

lemma size_of_readRow {widths : List Bool} {row : Row}
    (h : readRow widths data pos = .ok row next) : row.size = widths.length := by
  obtain ⟨cells, hcells, rfl⟩ := Reader.map_eq_ok.mp h
  simpa using (Reader.forall_of_mapM hcells).length_eq.symm

lemma rows_of_readTables {w : Widths} {own : RowCounts} {list : List TableId}
    (hnodup : list.Nodup) {done rows : Vector (Array Row) TableId.count}
    (h : readTables w own list done data pos = .ok rows next) (t : TableId) :
    (t ∉ list → rows.get ⟨t.slot, t.slot_lt⟩ = done.get ⟨t.slot, t.slot_lt⟩) ∧
      (t ∈ list → (rows.get ⟨t.slot, t.slot_lt⟩).size = own.rows t ∧
        ∀ row ∈ rows.get ⟨t.slot, t.slot_lt⟩, row.size = t.columns.length) := by
  induction list generalizing done pos with
  | nil =>
    rw [readTables, Reader.pure_eq_ok] at h
    exact ⟨fun _ => by rw [h.1], fun h => by cases h⟩
  | cons t₀ rest ih =>
    obtain ⟨hfresh, hnodup'⟩ := List.nodup_cons.mp hnodup
    rw [readTables, Reader.bind_eq_ok] at h
    obtain ⟨first, between, hfirst, hrest⟩ := h
    obtain ⟨hother, hread⟩ := ih hnodup' hrest
    by_cases ht : t = t₀
    · subst ht
      refine ⟨fun h => absurd (List.mem_cons_self ..) h, fun _ => ?_⟩
      rw [hother hfresh]
      obtain ⟨hsize, hrows⟩ := Reader.forall_of_array hfirst
      rw [get_slot, Vector.getElem_set_self]
      refine ⟨hsize, fun row hrow => ?_⟩
      obtain ⟨_, _, hrow⟩ := hrows row hrow
      simpa [columnWidths] using size_of_readRow hrow
    · have hslot : t₀.slot ≠ t.slot := fun heq => ht (TableId.slot_injective heq.symm)
      refine ⟨fun hmem => ?_, fun hmem => hread (List.mem_of_ne_of_mem ht hmem)⟩
      rw [hother fun h => hmem (List.mem_cons_of_mem _ h)]
      rw [get_slot, get_slot, Vector.getElem_set_ne _ _ hslot]

lemma known_of_readCounts {valid : UInt64} {own : RowCounts}
    (h : readCounts valid data pos = .ok own next) :
    ∀ slot ∈ maskSlots valid, (TableId.ofNumber? slot).isSome := by
  obtain ⟨pairs, hpairs, -⟩ := Reader.map_eq_ok.mp h
  intro slot hslot
  obtain ⟨_, _, _, hread⟩ := Reader.exists_of_mapM hpairs hslot
  obtain ⟨hknown, -⟩ := Reader.unless_fail_eq_ok.mp hread
  simpa [Option.isSome_iff_ne_none] using hknown

/-- What is read: the numbers of the header, the row counts, perhaps one more number, the rows. -/
lemma parts_of_reader {external : Option RowCounts} {ts : Tables}
    (h : reader external data 0 = .ok ts next) : ∃ fixed counted own before,
      data.Passed 0 fixed (Bytes.ofUInt32 ts.reserved ++ (#[ts.majorVersion] ++
        (#[ts.minorVersion] ++ (#[ts.heapSizes] ++ (#[ts.reserved2] ++
          (Bytes.ofUInt64 ts.valid ++ Bytes.ofUInt64 ts.sorted)))))) ∧
      ts.valid ≠ 0 ∧
      readCounts ts.valid data fixed = .ok own counted ∧
      ts.extra.isSome = (ts.heapSizes &&& extraFlag != 0) ∧
      (counted ≤ data.size →
        data.Passed counted before ((ts.extra.map Bytes.ofUInt32).getD #[])) ∧
      readTables ⟨own.withExternal external, ts.heapSizes⟩ own TableId.all
        (Vector.replicate _ #[]) data before = .ok ts.rows next := by
  simp only [reader, Reader.bind_eq_ok, Reader.unless_fail_eq_ok, Reader.data_apply] at h
  obtain ⟨_, _, hdata, -, reserved, _, hreserved, major, _, hmajor, minor, _, hminor, heapSizes, _,
    hheapSizes, reserved2, _, hreserved2, valid, _, hvalid, sorted, fixed, hsorted, hne, own,
    counted, hown, h⟩ := h
  cases hdata
  have hfixed := (Reader.passed_of_u32 hreserved).append <| (Reader.passed_of_u8 hmajor).append <|
    (Reader.passed_of_u8 hminor).append <| (Reader.passed_of_u8 hheapSizes).append <|
    (Reader.passed_of_u8 hreserved2).append <| (Reader.passed_of_u64 hvalid).append <|
    Reader.passed_of_u64 hsorted
  split at h
  · rename_i hflag
    obtain ⟨_, before, hextra, h⟩ := Reader.bind_eq_ok.mp h
    obtain ⟨number, hnumber, rfl⟩ := Reader.map_eq_ok.mp hextra
    obtain ⟨rows, _, hrows, hts⟩ := Reader.bind_eq_ok.mp h
    obtain ⟨rfl, rfl⟩ := Reader.pure_eq_ok.mp hts
    exact ⟨fixed, counted, own, before, hfixed, by simpa using hne, hown, hflag.symm,
      fun _ => Reader.passed_of_u32 hnumber, hrows⟩
  · rename_i hflag
    obtain ⟨_, before, hextra, h⟩ := Reader.bind_eq_ok.mp h
    obtain ⟨rfl, rfl⟩ := Reader.pure_eq_ok.mp hextra
    obtain ⟨rows, _, hrows, hts⟩ := Reader.bind_eq_ok.mp h
    obtain ⟨rfl, rfl⟩ := Reader.pure_eq_ok.mp hts
    exact ⟨fixed, counted, own, counted, hfixed, by simpa using hne, hown, by simpa using hflag,
      fun hle => .nil hle, hrows⟩

/-- Tables that have been read are such as a stream can hold, and their rows can be numbered. -/
lemma formed_of_read {external : Option RowCounts} {ts : Tables}
    (h : read data external = .ok ts) : ts.Formed ∧ ∀ t, ts.count t < 2 ^ 32 := by
  obtain ⟨next, h⟩ := Reader.run_eq_ok.mp h
  obtain ⟨_, _, own, _, -, hvalid, hown, hextra, -, hrows⟩ := parts_of_reader h
  have hread := fun t => (rows_of_readTables TableId.nodup_all hrows t).2 (TableId.mem_all t)
  refine ⟨⟨fun t => (hread t).2, known_of_readCounts hown, hvalid, hextra⟩, fun t => ?_⟩
  rw [count, table, (hread t).1]
  exact UInt32.toNat_lt _

open Reader (ReadsBack)

lemma readsBack_cell {t : TableId} {column : Column} {large : Bool} {value : UInt32} {piece : Bytes}
    (h : encodeCell t column large value = .ok piece) :
    ReadsBack (readCell large) piece value ∧ 2 ≤ piece.size := by
  unfold encodeCell at h
  split at h
  · cases h
  · unfold Bytes.ofIndex at h
    split at h
    · rename_i hlarge
      cases h
      refine ⟨?_, by simp⟩
      rw [readCell, if_pos hlarge]
      exact .u32 value
    · rename_i hsmall
      split at h
      · rename_i hlt
        cases h
        refine ⟨?_, by simp⟩
        rw [readCell, if_neg hsmall]
        simpa using (ReadsBack.number (w := 2) hlt).map (g := UInt32.ofNat)
      · cases h

/-- A row is appended cell by cell, and the piece reads back as the row. -/
lemma readsBack_encodeRow {t : TableId} {columns : List (Column × Bool)} {values : List UInt32}
    (hlen : columns.length = values.length) {done out : Bytes}
    (h : encodeRow t columns values done = .ok out) : ∃ piece, out = done ++ piece ∧
      ReadsBack ((columns.map Prod.snd).mapM readCell) piece values ∧
      2 * columns.length ≤ piece.size := by
  induction columns generalizing values done with
  | nil =>
    obtain rfl := List.length_eq_zero_iff.mp hlen.symm
    cases h
    exact ⟨#[], by simp, .mapM_nil _, by simp⟩
  | cons head columns ih =>
    obtain ⟨value, values, rfl⟩ := List.exists_cons_of_length_eq_add_one hlen.symm
    obtain ⟨cell, hcell, h⟩ := Result.bind_eq_ok.mp h
    obtain ⟨rest, rfl, hrest, hsize⟩ := ih (by simpa using hlen) h
    obtain ⟨hread, hcellSize⟩ := readsBack_cell hcell
    refine ⟨cell ++ rest, by rw [Array.append_assoc], .mapM_cons hread hrest, ?_⟩
    rw [List.length_cons, Array.size_append]
    omega

lemma columns_ne_nil (t : TableId) : 1 ≤ t.columns.length := by
  cases t <;> decide

lemma readsBack_encodeTable {w : Widths} {t : TableId} {rows : List Row}
    (before : Array Row) (hwidth : ∀ row ∈ rows, row.size = t.columns.length) {done out : Bytes}
    (h : rows.foldlM (fun done row =>
      encodeRow t (t.columns.map fun column => (column, w.isLarge column)) row.toList done) done =
        .ok out) : ∃ piece, out = done ++ piece ∧
      ReadsBack (Reader.manyInto (readRow (columnWidths w t)) rows.length before) piece
        (before ++ rows.toArray) ∧
      2 * rows.length ≤ piece.size := by
  induction rows generalizing done before with
  | nil =>
    cases h
    exact ⟨#[], by simp, by simpa using Reader.ReadsBack.manyInto_zero _ before, by simp⟩
  | cons row rows ih =>
    obtain ⟨between, hrow, h⟩ := Result.foldlM_cons_eq_ok.mp h
    obtain ⟨piece, rfl, hpiece, hsize⟩ := readsBack_encodeRow
      (by simpa using (hwidth row (List.mem_cons_self ..)).symm) hrow
    obtain ⟨rest, rfl, hrest, hsize'⟩ := ih (before.push row)
      (fun row hrow => hwidth row (List.mem_cons_of_mem _ hrow)) h
    have hread : ReadsBack (readRow (columnWidths w t)) piece row := by
      have := hpiece.map (g := List.toArray)
      rwa [List.map_map, Array.toArray_toList] at this
    refine ⟨piece ++ rest, by rw [Array.append_assoc], ?_, ?_⟩
    · refine .manyInto_succ hread ?_
      simpa using hrest
    · have := columns_ne_nil t
      rw [List.length_map] at hsize
      rw [List.length_cons, Array.size_append]
      omega

/-- The rows read back where the counts are those of the tables; counting them takes two bytes a
row at least. -/
lemma readsBack_tables {ts : Tables} {w : Widths} {list : List TableId}
    (hwidth : ∀ t, ∀ row ∈ ts.table t, row.size = t.columns.length) {done out : Bytes}
    (h : list.foldlM (fun done t => encodeTable w t (ts.table t) done) done = .ok out) :
    ∃ piece, out = done ++ piece ∧ (∀ t ∈ list, 2 * ts.count t ≤ piece.size) ∧
      ∀ (own : RowCounts) before, (∀ t, own.rows t = ts.count t) →
        ReadsBack (readTables w own list before) piece
          (list.foldl (fun rows t => rows.set t.slot (ts.table t) t.slot_lt) before) := by
  induction list generalizing done with
  | nil =>
    cases h
    exact ⟨#[], by simp, by simp, fun _ before _ => .pure before⟩
  | cons t list ih =>
    obtain ⟨between, htable, h⟩ := Result.foldlM_cons_eq_ok.mp h
    rw [encodeTable, ← Array.foldlM_toList] at htable
    obtain ⟨piece, rfl, hpiece, hsize⟩ := readsBack_encodeTable #[]
      (fun row hrow => hwidth t row (Array.mem_toList_iff.mp hrow)) htable
    obtain ⟨rest, rfl, hrestSize, hrest⟩ := ih h
    refine ⟨piece ++ rest, by rw [Array.append_assoc], fun s hs => ?_, fun own before hown => ?_⟩
    · rw [Array.size_append]
      rcases List.mem_cons.mp hs with rfl | hs
      · rw [Array.length_toList] at hsize
        rw [count]
        omega
      · have := hrestSize s hs
        omega
    · rw [readTables]
      refine ReadsBack.bind (a := ts.table t) ?_ (hrest own _ hown)
      rw [Reader.array, hown t, count]
      simpa using hpiece

lemma exists_slot_eq : ∀ i < TableId.count, ∃ t ∈ TableId.all, t.slot = i := by decide

/-- Every place among the rows is the place of a table. -/
lemma foldl_set_all (ts : Tables) (before : Vector (Array Row) TableId.count) :
    TableId.all.foldl (fun rows t => rows.set t.slot (ts.table t) t.slot_lt) before = ts.rows := by
  have hset : ∀ (list : List TableId) (before : Vector (Array Row) TableId.count) (i : Nat)
      (hi : i < TableId.count),
      (list.foldl (fun rows t => rows.set t.slot (ts.table t) t.slot_lt) before)[i] =
        if i ∈ list.map TableId.slot then ts.rows[i] else before[i] := by
    intro list
    induction list with
    | nil => simp
    | cons t list ih =>
      intro before i hi
      rw [List.foldl_cons, ih, Vector.getElem_set]
      by_cases hmem : i ∈ list.map TableId.slot
      · simp [hmem]
      · by_cases hslot : t.slot = i
        · subst hslot
          simp [table, get_slot]
        · simp [hmem, hslot, Ne.symm hslot]
  refine Vector.ext fun i hi => ?_
  obtain ⟨t, ht, rfl⟩ := exists_slot_eq i hi
  rw [hset, if_pos (List.mem_map_of_mem ht)]

/-- The row counts of the tables that are present, in the order of their numbers. -/
def countBytes (ts : Tables) : Bytes :=
  (TableId.all.filter fun t => ts.present.toNat.testBit t.number).foldl
    (fun done t => done ++ Bytes.ofNat 4 (ts.count t)) #[]

lemma readsBack_counts {ts : Tables} (hformed : ts.Formed) (hcount : ∀ t, ts.count t < 2 ^ 32) :
    ReadsBack (readCounts ts.present) ts.countBytes ts.counts := by
  have hnumbers := ts.map_number_listed hformed.known
  have hpairs : (maskSlots ts.present).map (fun slot => (slot, ts.countAt slot)) =
      (TableId.all.filter fun t => ts.present.toNat.testBit t.number).map
        fun t => (t.number, UInt32.ofNat (ts.count t)) := by
    rw [← hnumbers, List.map_map]
    simp
  rw [← ofPairs_present, hpairs, readCounts, ← hnumbers, List.mapM_map]
  refine ReadsBack.map (ReadsBack.mapM fun t _ => ?_)
  refine ReadsBack.unless_fail (by simp [TableId.ofNumber?_number]) ?_
  have hread : ReadsBack Reader.u32 (Bytes.ofNat 4 (ts.count t)) (UInt32.ofNat (ts.count t)) :=
    (ReadsBack.number (hcount t)).map
  simpa using hread.map (g := Prod.mk t.number)

lemma present_ne {ts : Tables} (hformed : ts.Formed) : ts.present ≠ 0 := by
  intro hzero
  refine hformed.valid_ne (UInt64.toNat_inj.mp (Nat.eq_of_testBit_eq fun slot => ?_))
  cases hbit : ts.valid.toNat.testBit slot with
  | false => simp
  | true =>
    have := testBit_present.mpr (.inl hbit)
    simp [hzero] at this

lemma encodeHeader_eq (ts : Tables) : ts.encodeHeader =
    Bytes.ofUInt32 ts.reserved ++ (#[ts.majorVersion] ++ (#[ts.minorVersion] ++ (#[ts.heapSizes] ++
      (#[ts.reserved2] ++ (Bytes.ofUInt64 ts.present ++ (Bytes.ofUInt64 ts.sorted ++
        (ts.countBytes ++ (ts.extra.map Bytes.ofUInt32).getD #[]))))))) := by
  have hbytes : #[ts.majorVersion, ts.minorVersion, ts.heapSizes, ts.reserved2] =
      #[ts.majorVersion] ++ #[ts.minorVersion] ++ #[ts.heapSizes] ++ #[ts.reserved2] := rfl
  rw [encodeHeader, hbytes, countBytes]
  simp only [Array.append_assoc]

lemma le_size_encodeHeader (ts : Tables) : 24 ≤ ts.encodeHeader.size := by
  rw [encodeHeader_eq]
  simp only [Array.size_append, Bytes.size_ofUInt32, Bytes.size_ofUInt64, List.size_toArray,
    List.length_cons, List.length_nil]
  omega

/-- The bytes of tables read back as the tables, with the mask that they were written with. -/
theorem read_encode {ts : Tables} (hformed : ts.Formed) {external : Option RowCounts}
    {bytes : Bytes} (h : ts.encode external = .ok bytes) (hsize : bytes.size < 2 ^ 32) :
    read bytes external = .ok { ts with valid := ts.present } := by
  obtain ⟨body, hbody, h⟩ := Result.bind_eq_ok.mp h
  cases h
  obtain ⟨rows, rfl, hrowsSize, hrows⟩ := readsBack_tables hformed.width hbody
  have hstands : ((ts.encodeHeader ++ rows).padTo 4).StandsAt 0 (ts.encodeHeader ++ rows) :=
    (Bytes.standsAt_self _).append_right _
  have hle := hstands.le_size
  have hcount : ∀ t, ts.count t < 2 ^ 32 := by
    intro t
    have := hrowsSize t (TableId.mem_all t)
    rw [Array.size_append] at hle
    omega
  have htables := hrows ts.counts (Vector.replicate _ #[]) fun t => rows_counts (hcount t)
  rw [foldl_set_all] at htables
  have hlarge : 24 ≤ ((ts.encodeHeader ++ rows).padTo 4).size := by
    have := ts.le_size_encodeHeader
    rw [Array.size_append] at hle
    omega
  refine Reader.run_eq_ok.mpr ⟨0 + (ts.encodeHeader ++ rows).size, ?_⟩
  rw [reader, Reader.bind_apply, Reader.data_apply]
  simp only
  rw [if_neg (by omega)]
  rw [encodeHeader_eq] at hstands ⊢
  simp only [Array.append_assoc] at hstands ⊢
  refine (ReadsBack.bind (.u32 _) <| .bind (.u8 _) <| .bind (.u8 _) <| .bind (.u8 _) <|
    .bind (.u8 _) <| .bind (.u64 _) <| .bind (.u64 _) <|
    .unless_fail (by simpa using present_ne hformed) <|
    .bind (readsBack_counts hformed hcount) ?_) hstands
  have hrest : ReadsBack (readTables (ts.widths external) ts.counts TableId.all
      (Vector.replicate _ #[]) >>= fun rows => pure ⟨ts.reserved, ts.majorVersion, ts.minorVersion,
        ts.heapSizes, ts.reserved2, ts.present, ts.sorted, ts.extra, rows⟩) rows
      { ts with valid := ts.present } := by
    have := htables.bind (f := fun rows => pure (Tables.mk ts.reserved ts.majorVersion
      ts.minorVersion ts.heapSizes ts.reserved2 ts.present ts.sorted ts.extra rows)) (.pure _)
    rwa [Array.append_empty] at this
  have hextra := hformed.extra
  cases hts : ts.extra with
  | none =>
    rw [hts] at hextra hrest
    rw [if_neg (by rw [← hextra]; simp)]
    rw [pure_bind, Option.map_none, Option.getD_none, Array.empty_append]
    exact hrest
  | some extra =>
    rw [hts] at hextra hrest
    rw [if_pos (by rw [← hextra]; rfl)]
    exact ReadsBack.bind (ReadsBack.u32 extra).map hrest

end Tables

end CliImage
