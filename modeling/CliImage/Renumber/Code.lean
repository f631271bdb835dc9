import CliImage.Bytes.Access
import CliImage.Image.Basic
import CliImage.Renumber.RidMap
import Std.Data.HashSet

/-!
Renumbering method tokens outside the tables: in code and in vtable slots. A change that fails
leaves the bytes that were written before.
-/

namespace CliImage

/-- A change of a byte string, kept where it fails. -/
abbrev Edit := EStateM Error Bytes

namespace Edit

def put (offset : Nat) (new : Bytes) : Edit Unit := fun data =>
  if offset + new.size ≤ data.size then .ok () (data.overlay offset new)
  else .error .outOfBounds data

def numberAt (offset w : Nat) : Edit Nat := fun data =>
  if offset + w ≤ data.size then .ok (data.natAt offset w) data else .error .outOfBounds data

def lift {α : Type} (r : Result α) : Edit α := fun data =>
  match r with
  | .ok a => .ok a data
  | .error e => .error e data

def run {α : Type} (edit : Edit α) (data : Bytes) : Result (α × Bytes) :=
  match edit data with
  | .ok a data => .ok (a, data)
  | .error e _ => .error e

end Edit

/-- The method tokens in a method's code. -/
def Method.tokens (m : Method) : List (Instruction × Token) :=
  m.instructions.toList.filterMap fun i =>
    (i.token?.filter Token.isMethodDef).map fun token => (i, token)

/-- The encoded body of an added method with its method tokens renumbered. -/
def RidMap.body (map : RidMap) (m : Method) (encoded : Bytes) : Result Bytes :=
  let header := (m.body.map Body.headerSize).getD 0
  m.tokens.foldlM (fun data (i, token) =>
    data.put (header + (i.offset + i.size - 4)) (Bytes.ofUInt32 (map.token token).value)) encoded

namespace RidMap

/-- Renumbers one token operand, unless the place has been renumbered for another method that shares
the code. -/
def operand (map : RidMap) (offsetOf : Nat → Result Nat) (m : Method) (patched : Std.HashSet Nat)
    (i : Instruction) (token : Token) : Edit (Std.HashSet Nat) := do
  let rva := i.rva.toNat + i.size - 4
  if 2 ^ 32 ≤ rva then throw (.fault (.tokenOperand m.name))
  let offset ← Edit.lift (offsetOf rva)
  if patched.contains offset then pure patched
  else do
    Edit.put offset (Bytes.ofUInt32 (map.token token).value)
    pure (patched.insert offset)

/-- Renumbers the method tokens in the code of the methods that have rows; the count of places. -/
def code (map : RidMap) (methods : List Method) (offsetOf : Nat → Result Nat) : Edit Nat := do
  let patched ← (methods.filter fun m => !m.isAdded).foldlM (fun patched m =>
    m.tokens.foldlM (fun patched (i, token) => map.operand offsetOf m patched i token) patched)
    (∅ : Std.HashSet Nat)
  pure patched.size

/-- How many bytes a slot of a kind of vtable fixup takes, if it holds tokens. -/
def slotSize? (kind : Nat) : Option Nat :=
  if kind.testBit 1 then some 8 else if kind.testBit 0 then some 4 else none

def slots (map : RidMap) (start size : Nat) : (left i : Nat) → Edit Unit
  | 0, _ => pure ()
  | left + 1, i => do
    let value ← Edit.numberAt (start + i * size) 4
    Edit.put (start + i * size) (Bytes.ofUInt32 (map.token ⟨UInt32.ofNat value⟩).value)
    map.slots start size left (i + 1)

def vtableEntry (map : RidMap) (offsetOf : Nat → Result Nat) (entry : Nat) : Edit Unit := do
  let _ ← Edit.numberAt entry 8
  let rva ← Edit.numberAt entry 4
  let count ← Edit.numberAt (entry + 4) 2
  let kind ← Edit.numberAt (entry + 6) 2
  match slotSize? kind with
  | none => pure ()
  | some size => do
    let start ← Edit.lift (offsetOf rva)
    map.slots start size count 0

/-- Renumbers the tokens in the slots that the vtable fixups name. -/
def vtable (map : RidMap) (fixups : Span) (offsetOf : Nat → Result Nat) : Edit Unit := do
  if fixups.rva = 0 ∨ fixups.size = 0 then pure ()
  else do
    let table ← Edit.lift (offsetOf fixups.rva.toNat)
    (List.range (fixups.size.toNat / 8)).forM fun i => map.vtableEntry offsetOf (table + 8 * i)

end RidMap

end CliImage
