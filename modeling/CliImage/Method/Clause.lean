import CliImage.Text.Hex

/-!
Exception clauses of a method body.
-/

namespace CliImage

/-- The names of the set flags in order, joined; bits without a name follow as one number. -/
def renderFlags (names : List (Nat × String)) (bits : Nat) : String :=
  let set := names.filter fun (mask, _) => bits &&& mask == mask
  let rest := names.foldl (fun left (mask, _) => left - (left &&& mask)) bits
  let parts := set.map Prod.snd ++ (if rest == 0 then [] else [Hex.prefixed rest])
  if parts.isEmpty then "0x0" else " | ".intercalate parts

/-- A protected range of code and the range of its handler. -/
structure Clause where
  flags : UInt16
  tryOffset : UInt32
  tryLength : UInt32
  handlerOffset : UInt32
  handlerLength : UInt32
  filterOffset : UInt32
  deriving DecidableEq, Repr, Inhabited

namespace Clause

def flagNames : List (Nat × String) := [(1, "FILTER"), (2, "FINALLY"), (4, "FAULT")]

/-- The bits of a clause's flags that have a meaning. -/
def flagMask : UInt16 := 0x7

def Fits (codeSize : Nat) (clause : Clause) : Prop :=
  clause.tryOffset.toNat + clause.tryLength.toNat ≤ codeSize ∧
    clause.handlerOffset.toNat + clause.handlerLength.toNat ≤ codeSize

instance (codeSize : Nat) (clause : Clause) : Decidable (clause.Fits codeSize) :=
  inferInstanceAs (Decidable (_ ∧ _))

def text (clause : Clause) : String :=
  "ExceptionHandler \x7b flags: ExceptionHandlerFlags(" ++ renderFlags flagNames clause.flags.toNat
    ++ "), try_offset: " ++ toString clause.tryOffset.toNat
    ++ ", try_length: " ++ toString clause.tryLength.toNat
    ++ ", handler_offset: " ++ toString clause.handlerOffset.toNat
    ++ ", handler_length: " ++ toString clause.handlerLength.toNat
    ++ ", filter_offset: " ++ toString clause.filterOffset.toNat ++ " \x7d"

end Clause

end CliImage
