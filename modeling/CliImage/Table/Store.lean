import CliImage.Table.Widths
import CliImage.Error

/-!
The rows of all tables together with the header of the tables stream.
-/

namespace CliImage

abbrev Row := Array UInt32

structure Tables where
  reserved : UInt32
  majorVersion : UInt8
  minorVersion : UInt8
  heapSizes : UInt8
  reserved2 : UInt8
  valid : UInt64
  sorted : UInt64
  extra : Option UInt32
  rows : Vector (Array Row) TableId.count
  deriving DecidableEq, Repr

namespace Tables

def table (ts : Tables) (t : TableId) : Array Row := ts.rows.get ⟨t.slot, t.slot_lt⟩

def setTable (ts : Tables) (t : TableId) (rows : Array Row) : Tables :=
  { ts with rows := ts.rows.set t.slot rows t.slot_lt }

def count (ts : Tables) (t : TableId) : Nat := (ts.table t).size

/-- Rows are numbered from one. -/
def row? (ts : Tables) (t : TableId) (rid : Nat) : Option Row :=
  if rid = 0 then none else (ts.table t)[rid - 1]?

def cell (ts : Tables) (t : TableId) (rid column : Nat) : Result UInt32 :=
  match (ts.row? t rid).bind (·[column]?) with
  | some value => .ok value
  | none => .error (.fault (.cellAbsent t rid column))

/-- Changes one cell; nothing happens where there is none. -/
def setCell (ts : Tables) (t : TableId) (rid column : Nat) (value : UInt32) : Tables :=
  if rid = 0 then ts
  else ts.setTable t ((ts.table t).modify (rid - 1) (·.setIfInBounds column value))

def checkWidth (t : TableId) (row : Row) : Result Unit :=
  if row.size = t.columns.length then .ok ()
  else .error (.fault (.rowWidth t t.columns.length row.size))

/-- Puts a row at a number; the rows from there on move up. -/
def insert (ts : Tables) (t : TableId) (rid : Nat) (row : Row) : Result Tables := do
  checkWidth t row
  if h : rid ≠ 0 ∧ rid ≤ ts.count t + 1 then
    .ok (ts.setTable t ((ts.table t).insertIdx (rid - 1) row
      (by have := h.2; simp only [count] at this; omega)))
  else .error .outOfBounds

/-- Puts rows behind the last one. -/
def append (ts : Tables) (t : TableId) (rows : Array Row) : Result Tables := do
  for row in rows do checkWidth t row
  .ok (ts.setTable t (ts.table t ++ rows))

def push (ts : Tables) (t : TableId) (row : Row) : Result Tables := ts.append t #[row]

def counts (ts : Tables) : RowCounts :=
  RowCounts.ofPairs (TableId.all.map fun t => (t.number, UInt32.ofNat (ts.count t)))

def isSorted (ts : Tables) (t : TableId) : Bool := ts.sorted.toNat.testBit t.number

/-- The valid mask with the tables that have rows. -/
def present (ts : Tables) : UInt64 :=
  (TableId.all.filter fun t => ts.count t ≠ 0).foldl
    (fun mask t => mask ||| UInt64.ofNat (2 ^ t.number)) ts.valid

def widths (ts : Tables) (external : Option RowCounts) : Widths :=
  ⟨ts.counts.withExternal external, ts.heapSizes⟩

theorem get_slot {α : Type} (rows : Vector α TableId.count) (t : TableId) :
    rows.get ⟨t.slot, t.slot_lt⟩ = have := t.slot_lt; rows[t.slot] :=
  rfl

@[simp] theorem table_setTable_self (ts : Tables) (t : TableId) (rows : Array Row) :
    (ts.setTable t rows).table t = rows := by
  rw [table, setTable, get_slot, Vector.getElem_set_self]

theorem table_setTable_of_ne (ts : Tables) {s t : TableId} (h : s ≠ t) (rows : Array Row) :
    (ts.setTable t rows).table s = ts.table s := by
  have hs : t.slot ≠ s.slot := fun e => h (TableId.slot_injective e.symm)
  rw [table, setTable, table, get_slot, get_slot, Vector.getElem_set_ne _ _ hs]

end Tables

end CliImage
