import CliImage.Reader
import CliImage.Table.Widths

/-!
The #Pdb stream: the identity of a portable PDB, its entry point and how many rows the tables of the
image have.
-/

namespace CliImage

structure PdbHeader where
  id : Vector UInt8 20
  entryPoint : Token
  referenced : UInt64
  rows : RowCounts
  deriving DecidableEq, Repr

namespace PdbHeader

def reader : Reader PdbHeader := do
  if (← Reader.data).size < 32 then Reader.fail .outOfBounds
  let id ← Reader.vector 20
  let entryPoint ← Token.mk <$> Reader.u32
  let referenced ← Reader.u64
  let rows ← (maskSlots referenced).mapM fun slot => do
    let n ← Reader.u32
    pure (slot, n)
  pure { id, entryPoint, referenced, rows := RowCounts.ofPairs rows }

def read (data : Bytes) : Result PdbHeader := reader.run data

def guid (header : PdbHeader) : Bytes := header.id.toArray.extract 0 16

def encode (header : PdbHeader) : Bytes :=
  header.id.toArray ++ Bytes.ofUInt32 header.entryPoint.value ++ Bytes.ofUInt64 header.referenced
    ++ (maskSlots header.referenced).foldl
      (fun done slot => done ++ Bytes.ofUInt32 (header.rows.toArray.getD slot 0)) #[]

end PdbHeader

end CliImage
