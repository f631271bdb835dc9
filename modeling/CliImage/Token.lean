import CliImage.Table.Id
import CliImage.Text.Hex

/-!
Metadata tokens: the high byte names a table, the rest a row.
-/

namespace CliImage

structure Token where
  value : UInt32
  deriving DecidableEq, Repr, Inhabited

namespace Token

def rowLimit : Nat := 2 ^ 24

def ofRow (t : TableId) (rid : Nat) : Token :=
  ⟨UInt32.ofNat (t.number * rowLimit + rid % rowLimit)⟩

def table (token : Token) : Nat := token.value.toNat / rowLimit

def row (token : Token) : Nat := token.value.toNat % rowLimit

def isNull (token : Token) : Bool := token.value == 0

def isMethodDef (token : Token) : Bool := token.table == TableId.methodDef.number

def text (token : Token) : String := "0x" ++ Hex.padded 8 token.value.toNat

theorem row_lt (token : Token) : token.row < rowLimit := Nat.mod_lt _ (by decide)

theorem value_toNat (token : Token) :
    token.value.toNat = token.table * rowLimit + token.row := by
  simp only [table, row]
  exact (Nat.div_add_mod' _ _).symm

end Token

end CliImage
