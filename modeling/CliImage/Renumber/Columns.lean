import CliImage.Renumber.RidMap
import CliImage.Table.CodedIndex
import CliImage.Table.Store

/-!
Renumbering every cell that names a row of the renumbered table. Where a cell cannot be read the
cells before it have been changed already.
-/

namespace CliImage

/-- What a change has led to, how many cells it changed, and what ended it early, if anything. -/
structure Changed (α : Type) where
  value : α
  count : Nat
  failure : Option Error

namespace RidMap

/-- The null row has no table, whatever its tag. -/
def cell (map : RidMap) (column : Column) (value : UInt32) : Result UInt32 :=
  match column with
  | .row _ => .ok (map.get value)
  | .coded kind =>
    if value.toNat / 2 ^ kind.tagBits = 0 then .ok value
    else do
      let (table, rid) ← kind.decode value
      if table = map.table then kind.encode table (map.get rid) else .ok value
  | _ => .ok value

/-- The columns of a table that can name a row of the renumbered one, with their places. -/
def referencing (map : RidMap) (t : TableId) : List (Nat × Column) :=
  (t.columns.zipIdx.filter fun (column, _) => column.references map.table).map
    fun (column, i) => (i, column)

def row (map : RidMap) : List (Nat × Column) → Row → Nat → Changed Row
  | [], row, n => ⟨row, n, none⟩
  | (i, column) :: rest, row, n =>
    let old := row.getD i 0
    match map.cell column old with
    | .error e => ⟨row, n, some e⟩
    | .ok new =>
      if new = old then map.row rest row n
      else map.row rest (row.setIfInBounds i new) (n + 1)

/-- Renumbers the rows from place `i` on, `left` of them. -/
def rows (map : RidMap) (columns : List (Nat × Column)) :
    (left i : Nat) → Array Row → Nat → Changed (Array Row)
  | 0, _, rows, n => ⟨rows, n, none⟩
  | left + 1, i, rows, n =>
    let changed := map.row columns (rows.getD i #[]) n
    let rows := if changed.count = n then rows else rows.setIfInBounds i changed.value
    match changed.failure with
    | some e => ⟨rows, changed.count, some e⟩
    | none => map.rows columns left (i + 1) rows changed.count

def tables (map : RidMap) : List TableId → Tables → Nat → Changed Tables
  | [], ts, n => ⟨ts, n, none⟩
  | t :: rest, ts, n =>
    let columns := map.referencing t
    if columns.isEmpty then map.tables rest ts n
    else
      let rows := ts.table t
      let changed := map.rows columns rows.size 0 rows n
      let ts := ts.setTable t changed.value
      match changed.failure with
      | some e => ⟨ts, changed.count, some e⟩
      | none => map.tables rest ts changed.count

end RidMap

/-- Renumbers the references to the map's table in all tables. -/
def Tables.renumber (ts : Tables) (map : RidMap) : Changed Tables := map.tables TableId.all ts 0

/-- The renumbered tables, if every cell could be read. -/
def Tables.renumbered (ts : Tables) (map : RidMap) : Result Tables :=
  let changed := ts.renumber map
  match changed.failure with
  | some e => .error e
  | none => .ok changed.value

end CliImage
