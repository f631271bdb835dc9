import CliImage.Token

/-!
Renumbering the rows of one table. Rows outside the map and the null row keep their number.
-/

namespace CliImage

/-- `targets` holds the new number of row 1, row 2 and so on. -/
structure RidMap where
  table : TableId
  targets : Array UInt32
  deriving DecidableEq, Repr

namespace RidMap

def get (map : RidMap) (rid : UInt32) : UInt32 :=
  if rid = 0 then 0 else map.targets.getD (rid.toNat - 1) rid

/-- Renumbers a token that names a row of the table. -/
def token (map : RidMap) (token : Token) : Token :=
  if token.table = map.table.number ∧ ¬ token.isNull then
    Token.ofRow map.table (map.get (UInt32.ofNat token.row)).toNat
  else token

def isIdentity (map : RidMap) : Bool :=
  (List.range map.targets.size).all fun i => map.targets.getD i 0 == UInt32.ofNat (i + 1)

@[simp] theorem get_zero (map : RidMap) : map.get 0 = 0 := rfl

theorem get_beyond {map : RidMap} {rid : UInt32} (h : map.targets.size < rid.toNat) :
    map.get rid = rid := by
  have hne : rid ≠ 0 := by
    rintro rfl
    simp at h
  rw [get, if_neg hne, Array.getD_eq_getD_getElem?, Array.getElem?_eq_none (by omega),
    Option.getD_none]

end RidMap

end CliImage
