import CliImage.Table.Column
import CliImage.Bytes

/-!
How many bytes a cell takes: an index is wide where the table, one of the tables or the heap it
points into is large.
-/

namespace CliImage

/-- One number of rows for each table number. -/
abbrev RowCounts := Vector UInt32 64

namespace RowCounts

def zero : RowCounts := Vector.replicate 64 0

def ofPairs (pairs : List (Nat × UInt32)) : RowCounts :=
  pairs.foldl (fun counts (slot, n) => counts.setIfInBounds slot n) zero

def rows (counts : RowCounts) (t : TableId) : Nat := (counts.get ⟨t.number, t.number_lt⟩).toNat

/-- Where there are no rows of its own the counts of another file stand in. -/
def withExternal (own : RowCounts) : Option RowCounts → RowCounts
  | none => own
  | some external => own.zipWith (fun n m => if n == 0 then m else n) external

end RowCounts

/-- The numbers of the set bits of a mask over tables, in order. -/
def maskSlots (mask : UInt64) : List Nat := (List.range 64).filter (mask.toNat.testBit ·)

structure Widths where
  counts : RowCounts
  heapSizes : UInt8
  deriving DecidableEq, Repr

namespace Widths

def largeStrings (w : Widths) : Bool := w.heapSizes &&& 0x01 != 0

def largeGuids (w : Widths) : Bool := w.heapSizes &&& 0x02 != 0

def largeBlobs (w : Widths) : Bool := w.heapSizes &&& 0x04 != 0

/-- The bits that the row numbers of a table need, at least one. -/
def rowBits (w : Widths) (t : TableId) : Nat :=
  if w.counts.rows t = 0 then 1 else (w.counts.rows t).log2 + 1

def largeTable (w : Widths) (t : TableId) : Bool := 0xFFFF < w.counts.rows t

def codedBits (w : Widths) (kind : CodedKind) : Nat :=
  ((kind.tables.filterMap id).map w.rowBits).foldl max 0 + kind.tagBits

def largeCoded (w : Widths) (kind : CodedKind) : Bool := 16 < w.codedBits kind

def isLarge (w : Widths) : Column → Bool
  | .u16 => false
  | .u32 => true
  | .string => w.largeStrings
  | .guid => w.largeGuids
  | .blob => w.largeBlobs
  | .row t | .run t => 16 < w.rowBits t
  | .coded kind => w.largeCoded kind

def size (w : Widths) (column : Column) : Nat := if w.isLarge column then 4 else 2

def rowSize (w : Widths) (t : TableId) : Nat := (t.columns.map w.size).foldr (· + ·) 0

end Widths

end CliImage
