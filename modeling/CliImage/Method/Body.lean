import CliImage.Method.Clause
import CliImage.Bytes.Window
import CliImage.Error

/-!
Method bodies: a header of one byte or of twelve and more, the code, and sections of exception
clauses behind it.
-/

namespace CliImage

structure Body where
  codeSize : Nat
  headerSize : Nat
  sectionSize : Nat
  localsToken : Token
  maxStack : Nat
  isFat : Bool
  initLocals : Bool
  clauses : List Clause
  deriving DecidableEq, Repr, Inhabited

namespace Body

def tinyMaxCode : Nat := 63

def tinyMaxStack : Nat := 8

def smallClause (data : Window) (start : Nat) : Clause where
  flags := UInt16.ofNat (data.natAt start 2) &&& Clause.flagMask
  tryOffset := UInt32.ofNat (data.natAt (start + 2) 2)
  tryLength := UInt32.ofNat (data.natAt (start + 4) 1)
  handlerOffset := UInt32.ofNat (data.natAt (start + 5) 2)
  handlerLength := UInt32.ofNat (data.natAt (start + 7) 1)
  filterOffset := UInt32.ofNat (data.natAt (start + 8) 4)

def fatClause (data : Window) (start : Nat) : Clause where
  flags := UInt16.ofNat (data.natAt start 4) &&& Clause.flagMask
  tryOffset := UInt32.ofNat (data.natAt (start + 4) 4)
  tryLength := UInt32.ofNat (data.natAt (start + 8) 4)
  handlerOffset := UInt32.ofNat (data.natAt (start + 12) 4)
  handlerLength := UInt32.ofNat (data.natAt (start + 16) 4)
  filterOffset := UInt32.ofNat (data.natAt (start + 20) 4)

/-- The clauses of a section at `start`; a rest that is too short for a clause is skipped. -/
def sectionClauses (data : Window) (start size : Nat) (fat : Bool) : List Clause :=
  if fat then (List.range ((size - 4) / 24)).map fun i => fatClause data (start + 4 + 24 * i)
  else (List.range ((size - 4) / 12)).map fun i => smallClause data (start + 4 + 12 * i)

/-- The bits of a section's first byte that have a meaning. -/
def sectionFlagMask : UInt8 := 0xC3

def sectionFlags (data : Window) (cursor : Nat) : UInt8 := data.byteAt cursor &&& sectionFlagMask

def sectionIsFat (data : Window) (cursor : Nat) : Bool := sectionFlags data cursor &&& 0x40 != 0

/-- The size that a section says it has, its first four bytes included. -/
def sectionLength (data : Window) (cursor : Nat) : Nat :=
  data.natAt (cursor + 1) (if sectionIsFat data cursor then 3 else 1)

/-- The clauses of the sections from `cursor` on, behind those already found, and where the last
section ends. -/
def readSections (data : Window) (cursor stop : Nat) (found : Array Clause) :
    Result (Array Clause × Nat) :=
  if cursor + 4 ≤ data.size then
    if sectionFlags data cursor &&& 0x01 = 0 then
      .error (.fault (.bodySection (sectionFlags data cursor)))
    else if _h : 4 ≤ sectionLength data cursor ∧ cursor + sectionLength data cursor ≤ data.size then
      let stop := cursor + sectionLength data cursor
      let found := found
        ++ sectionClauses data cursor (sectionLength data cursor) (sectionIsFat data cursor)
      if sectionFlags data cursor &&& 0x80 = 0 then .ok (found, stop)
      else readSections data (alignUp stop 4) stop found
    else .error .outOfBounds
  else .ok (found, stop)
termination_by data.size - cursor
decreasing_by
  simp only [alignUp]
  omega

def readTiny (data : Window) (lead : UInt8) : Result Body :=
  let codeSize := lead.toNat / 4
  if data.size < codeSize + 1 then .error .outOfBounds
  else .ok {
    codeSize, headerSize := 1, sectionSize := 0, localsToken := ⟨0⟩, maxStack := tinyMaxStack
    isFat := false, initLocals := false, clauses := [] }

def readFat (data : Window) : Result Body := do
  if data.size < 12 then throw .outOfBounds
  let lead := data.natAt 0 2
  let headerSize := lead / 4096 * 4
  if headerSize < 12 then throw (.fault (.bodyHeader headerSize))
  let codeSize := data.natAt 4 4
  let codeEnd := headerSize + codeSize
  if data.size < codeEnd then throw .outOfBounds
  let (clauses, stop) ←
    if lead.testBit 3 then readSections data (alignUp codeEnd 4) codeEnd #[] else pure (#[], codeEnd)
  match clauses.find? fun clause => ¬ clause.Fits codeSize with
  | some clause => throw (.fault (.bodyClause clause codeSize))
  | none =>
    .ok {
      codeSize, headerSize, sectionSize := stop - codeEnd
      localsToken := ⟨UInt32.ofNat (data.natAt 8 4)⟩
      maxStack := data.natAt 2 2, isFat := true, initLocals := lead.testBit 4
      clauses := clauses.toList }

def read (data : Window) : Result Body :=
  let lead := data.byteAt 0
  if data.size = 0 then .error (.fault .bodyEmpty)
  else if lead % 4 = 2 then readTiny data lead
  else if lead % 4 = 3 then readFat data
  else .error (.fault (.bodyFormat lead))

def size (body : Body) : Nat := body.codeSize + body.headerSize

def totalSize (body : Body) : Nat := body.size + body.sectionSize

def hasClauses (body : Body) : Bool := !body.clauses.isEmpty

/-- The code in the bytes that the body was read from. -/
def code (body : Body) (data : Window) : Result Bytes :=
  if body.size ≤ data.size then .ok (data.extract body.headerSize body.size)
  else .error .outOfBounds

/-- A body without locals or clauses, in the short form where code and stack allow. -/
def encode (code : Bytes) (maxStack : UInt16) : Result Bytes :=
  if code.size ≤ tinyMaxCode ∧ maxStack.toNat ≤ tinyMaxStack then
    .ok (#[UInt8.ofNat (code.size * 4 + 2)] ++ code)
  else if code.size < 2 ^ 32 then
    .ok (Bytes.ofNat 2 0x3003 ++ Bytes.ofUInt16 maxStack ++ Bytes.ofNat 4 code.size
      ++ Bytes.zeros 4 ++ code)
  else .error (.fault (.bodyTooLarge code.size))

end Body

end CliImage
