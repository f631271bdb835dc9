import CliImage.Bytes.Access
import CliImage.Reader
import CliImage.Table.Store

/-!
The tables stream: header, row counts and rows.
-/

namespace CliImage.Tables

/-- The bit of the heap sizes that announces one more number behind the row counts. -/
def extraFlag : UInt8 := 0x40

def readCell (large : Bool) : Reader UInt32 :=
  UInt32.ofNat <$> Reader.number (if large then 4 else 2)

def readRow (widths : List Bool) : Reader Row := List.toArray <$> widths.mapM readCell

def columnWidths (w : Widths) (t : TableId) : List Bool := t.columns.map w.isLarge

def readCounts (valid : UInt64) : Reader RowCounts :=
  RowCounts.ofPairs <$> (maskSlots valid).mapM fun slot => do
    if (TableId.ofNumber? slot).isNone then Reader.fail (.fault (.unknownTable slot))
    let n ← Reader.u32
    pure (slot, n)

def readTables (w : Widths) (own : RowCounts) :
    List TableId → Vector (Array Row) TableId.count → Reader (Vector (Array Row) TableId.count)
  | [], done => pure done
  | t :: rest, done => do
    let rows ← Reader.array (readRow (columnWidths w t)) (own.rows t)
    readTables w own rest (done.set t.slot rows t.slot_lt)

def reader (external : Option RowCounts) : Reader Tables := do
  if (← Reader.data).size < 24 then Reader.fail .outOfBounds
  let reserved ← Reader.u32
  let majorVersion ← Reader.u8
  let minorVersion ← Reader.u8
  let heapSizes ← Reader.u8
  let reserved2 ← Reader.u8
  let valid ← Reader.u64
  let sorted ← Reader.u64
  if valid == 0 then Reader.fail (.fault .noTables)
  let own ← readCounts valid
  let extra ← if heapSizes &&& extraFlag != 0 then some <$> Reader.u32 else pure none
  let w : Widths := ⟨own.withExternal external, heapSizes⟩
  let rows ← readTables w own TableId.all (Vector.replicate _ #[])
  pure { reserved, majorVersion, minorVersion, heapSizes, reserved2, valid, sorted, extra, rows }

/-- Index columns are as wide as the row counts ask, those of another file included. -/
def read (data : Bytes) (external : Option RowCounts) : Result Tables :=
  (reader external).run data

def encodeCell (t : TableId) (column : Column) (large : Bool) (value : UInt32) : Result Bytes :=
  if column = .u16 ∧ 2 ^ 16 ≤ value.toNat then .error (.fault (.cellTooWide value t))
  else Bytes.ofIndex large value

def encodeRow (t : TableId) : List (Column × Bool) → List UInt32 → Bytes → Result Bytes
  | (column, large) :: columns, value :: values, done => do
    encodeRow t columns values (done ++ (← encodeCell t column large value))
  | _, _, done => .ok done

def encodeTable (w : Widths) (t : TableId) (rows : Array Row) (done : Bytes) : Result Bytes :=
  let columns := t.columns.map fun column => (column, w.isLarge column)
  rows.foldlM (fun done row => encodeRow t columns row.toList done) done

def encodeHeader (ts : Tables) : Bytes :=
  let listed := TableId.all.filter fun t => ts.present.toNat.testBit t.number
  Bytes.ofUInt32 ts.reserved ++ #[ts.majorVersion, ts.minorVersion, ts.heapSizes, ts.reserved2]
    ++ Bytes.ofUInt64 ts.present ++ Bytes.ofUInt64 ts.sorted
    ++ listed.foldl (fun done t => done ++ Bytes.ofNat 4 (ts.count t)) #[]
    ++ (ts.extra.map Bytes.ofUInt32).getD #[]

def encode (ts : Tables) (external : Option RowCounts) : Result Bytes := do
  let w := ts.widths external
  let body ← TableId.all.foldlM (fun done t => encodeTable w t (ts.table t) done) ts.encodeHeader
  .ok (body.padTo 4)

end CliImage.Tables
