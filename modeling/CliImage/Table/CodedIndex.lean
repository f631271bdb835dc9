import CliImage.Table.CodedKind
import CliImage.Error

/-!
Coded indexes: a row number above a tag that selects its table.
-/

namespace CliImage.CodedKind

def decode (kind : CodedKind) (value : UInt32) : Result (TableId × UInt32) :=
  let tag := value.toNat % 2 ^ kind.tagBits
  match kind.tables[tag]? with
  | some (some table) => .ok (table, UInt32.ofNat (value.toNat / 2 ^ kind.tagBits))
  | _ => .error (.fault (.codedTag tag kind))

/-- The row's high bits are lost where tag and row do not fit into 32 bits. -/
def encode (kind : CodedKind) (table : TableId) (row : UInt32) : Result UInt32 :=
  match kind.tables.findIdx? (· == some table) with
  | some tag => .ok (UInt32.ofNat (row.toNat * 2 ^ kind.tagBits + tag))
  | none => .error (.fault (.codedTable table kind))

end CliImage.CodedKind
