import CliImage.Table.CodedKind

/-!
The columns of each table and the columns a table may be sorted by.
-/

namespace CliImage

/-- What a column holds: a number, a place in a heap, a row of a table, the first row of a run that
the next row's value ends, or a coded index. -/
inductive Column
  | u16
  | u32
  | string
  | guid
  | blob
  | row (target : TableId)
  | run (target : TableId)
  | coded (kind : CodedKind)
  deriving DecidableEq, Repr, Inhabited

/-- Whether a cell of the column can name a row of the table. The first row of a run does not
count. -/
def Column.references (target : TableId) : Column → Bool
  | .row t => t == target
  | .coded kind => kind.tables.contains (some target)
  | _ => false

namespace TableId

def columns : TableId → List Column
  | .module => [.u16, .string, .guid, .guid, .guid]
  | .typeRef => [.coded .resolutionScope, .string, .string]
  | .typeDef => [.u32, .string, .string, .coded .typeDefOrRef, .run .field, .run .methodDef]
  | .fieldPtr => [.row .field]
  | .field => [.u16, .string, .blob]
  | .methodPtr => [.row .methodDef]
  | .methodDef => [.u32, .u16, .u16, .string, .blob, .run .param]
  | .paramPtr => [.row .param]
  | .param => [.u16, .u16, .string]
  | .interfaceImpl => [.row .typeDef, .coded .typeDefOrRef]
  | .memberRef => [.coded .memberRefParent, .string, .blob]
  | .constant => [.u16, .coded .hasConstant, .blob]
  | .customAttribute => [.coded .hasCustomAttribute, .coded .customAttributeType, .blob]
  | .fieldMarshal => [.coded .hasFieldMarshal, .blob]
  | .declSecurity => [.u16, .coded .hasDeclSecurity, .blob]
  | .classLayout => [.u16, .u32, .row .typeDef]
  | .fieldLayout => [.u32, .row .field]
  | .standAloneSig => [.blob]
  | .eventMap => [.row .typeDef, .run .event]
  | .eventPtr => [.row .event]
  | .event => [.u16, .string, .coded .typeDefOrRef]
  | .propertyMap => [.row .typeDef, .run .property]
  | .propertyPtr => [.row .property]
  | .property => [.u16, .string, .blob]
  | .methodSemantics => [.u16, .row .methodDef, .coded .hasSemantics]
  | .methodImpl => [.row .typeDef, .coded .methodDefOrRef, .coded .methodDefOrRef]
  | .moduleRef => [.string]
  | .typeSpec => [.blob]
  | .implMap => [.u16, .coded .memberForwarded, .string, .row .moduleRef]
  | .fieldRva => [.u32, .row .field]
  | .encLog => [.u32, .u32]
  | .encMap => [.u32]
  | .assembly => [.u32, .u16, .u16, .u16, .u16, .u32, .blob, .string, .string]
  | .assemblyProcessor => [.u32]
  | .assemblyOs => [.u32, .u32, .u32]
  | .assemblyRef => [.u16, .u16, .u16, .u16, .u32, .blob, .string, .string, .blob]
  | .assemblyRefProcessor => [.u32, .row .assemblyRef]
  | .assemblyRefOs => [.u32, .u32, .u32, .row .assemblyRef]
  | .file => [.u32, .string, .blob]
  | .exportedType => [.u32, .u32, .string, .string, .coded .implementation]
  | .manifestResource => [.u32, .u32, .string, .coded .implementation]
  | .nestedClass => [.row .typeDef, .row .typeDef]
  | .genericParam => [.u16, .u16, .coded .typeOrMethodDef, .string]
  | .methodSpec => [.coded .methodDefOrRef, .blob]
  | .genericParamConstraint => [.row .genericParam, .coded .typeDefOrRef]
  | .document => [.blob, .guid, .blob, .guid]
  | .methodDebugInformation => [.row .document, .blob]
  | .localScope => [.row .methodDef, .row .importScope, .run .localVariable, .run .localConstant,
      .u32, .u32]
  | .localVariable => [.u16, .u16, .string]
  | .localConstant => [.string, .blob]
  | .importScope => [.row .importScope, .blob]
  | .stateMachineMethod => [.row .methodDef, .row .methodDef]
  | .customDebugInformation => [.coded .hasCustomDebugInformation, .guid, .blob]

/-- The columns that order the rows where the table is flagged as sorted, the most significant
first. -/
def sortKey? : TableId → Option (List Nat)
  | .interfaceImpl => some [0, 1]
  | .constant => some [1]
  | .customAttribute => some [0]
  | .fieldMarshal => some [0]
  | .declSecurity => some [1]
  | .classLayout => some [2]
  | .fieldLayout => some [1]
  | .methodSemantics => some [2]
  | .methodImpl => some [0]
  | .implMap => some [1]
  | .fieldRva => some [1]
  | .nestedClass => some [0]
  | .genericParam => some [2, 0]
  | .genericParamConstraint => some [0]
  | .localScope => some [0]
  | .stateMachineMethod => some [0]
  | .customDebugInformation => some [0]
  | _ => none

end TableId

end CliImage
