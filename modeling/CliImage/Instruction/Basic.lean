import CliImage.Decimal.Shortest
import CliImage.Instruction.Opcode
import CliImage.Reader

/-!
Instructions: decoding, branch targets and text.
-/

namespace CliImage

/-- A number in the instruction; of a float its bits. -/
inductive Immediate
  | int8 (value : Int8)
  | uint8 (value : UInt8)
  | uint16 (value : UInt16)
  | int32 (value : Int32)
  | int64 (value : Int64)
  | float32 (bits : UInt32)
  | float64 (bits : UInt64)
  deriving DecidableEq, Repr, Inhabited

namespace Immediate

/-- Signed numbers keep their sign, floats their bits. -/
def toUInt64 : Immediate → UInt64
  | int8 v => v.toInt64.toUInt64
  | uint8 v => v.toUInt64
  | uint16 v => v.toUInt64
  | int32 v => v.toInt64.toUInt64
  | int64 v => v.toUInt64
  | float32 bits => bits.toUInt64
  | float64 bits => bits

def text : Immediate → String
  | int8 v => toString v.toInt
  | uint8 v => toString v.toNat
  | uint16 v => toString v.toNat
  | int32 v => toString v.toInt
  | int64 v => toString v.toInt
  | float32 bits => Decimal.text Decimal.single bits.toNat
  | float64 bits => Decimal.text Decimal.double bits.toNat

end Immediate

inductive Operand
  | none
  | immediate (value : Immediate)
  | token (token : Token)
  | switch (offsets : List Int32)
  deriving DecidableEq, Repr, Inhabited

/-- An instruction at an offset of its method's code; `rva` is its address. -/
structure Instruction where
  rva : UInt64
  offset : Nat
  size : Nat
  escaped : Bool
  code : UInt8
  opcode : Opcode
  operand : Operand
  targets : List UInt64
  deriving DecidableEq, Repr, Inhabited

namespace Instruction

def readOpcode : Reader (Bool × UInt8 × Opcode) := do
  let first ← Reader.u8
  if first = Opcode.escape then do
    let second ← Reader.u8
    match Opcode.extended[second.toNat]? with
    | some (some opcode) => pure (true, second, opcode)
    | some none => Reader.fail (.fault (.opcodeReserved (first.toNat * 256 + second.toNat)))
    | none => Reader.fail (.fault (.opcodeExtended second))
  else
    match Opcode.single[first.toNat]? with
    | some (some opcode) => pure (false, first, opcode)
    | some none => Reader.fail (.fault (.opcodeReserved first.toNat))
    | none => Reader.fail (.fault (.opcode first))

def readInt32 : Reader Int32 := UInt32.toInt32 <$> Reader.u32

def readSwitch : Reader Operand := do
  let cases ← UInt32.toNat <$> Reader.u32
  let room := (← Reader.data).size - (← Reader.pos)
  if room / 4 < cases then Reader.fail (.fault (.switchCases cases))
  let offsets ← Reader.array readInt32 cases
  pure (.switch offsets.toList)

def readOperand : OperandKind → Reader Operand
  | .none => pure .none
  | .int8 => (fun v => .immediate (.int8 v.toInt8)) <$> Reader.u8
  | .uint8 => (fun v => .immediate (.uint8 v)) <$> Reader.u8
  | .uint16 => (fun v => .immediate (.uint16 v)) <$> Reader.u16
  | .int32 => (fun v => .immediate (.int32 v)) <$> readInt32
  | .int64 => (fun v => .immediate (.int64 v.toInt64)) <$> Reader.u64
  | .float32 => (fun v => .immediate (.float32 v)) <$> Reader.u32
  | .float64 => (fun v => .immediate (.float64 v)) <$> Reader.u64
  | .token => (fun v => .token ⟨v⟩) <$> Reader.u32
  | .switch => readSwitch

/-- Where control may go besides the next instruction; offsets count from the next instruction. -/
def branchTargets (flow : Flow) (operand : Operand) (next : UInt64) : List UInt64 :=
  match flow, operand with
  | .conditionalBranch, .immediate value => [next + value.toUInt64]
  | .unconditionalBranch, .immediate value => [next + value.toUInt64]
  | .switch, .switch offsets => offsets.map fun offset => next + offset.toInt64.toUInt64
  | _, _ => []

def read (rva : UInt64) : Reader Instruction := do
  let offset ← Reader.pos
  let (escaped, code, opcode) ← readOpcode
  let operand ← readOperand opcode.operand
  let size := (← Reader.pos) - offset
  let targets := branchTargets opcode.flow operand (rva + UInt64.ofNat size)
  pure { rva, offset, size, escaped, code, opcode, operand, targets }

/-- Reads on to the end of the code. Each instruction takes a byte or more, so `steps` need be no
more than the bytes that are left. -/
def readAll : Nat → UInt64 → Array Instruction → Reader (Array Instruction)
  | 0, _, done => pure done
  | steps + 1, rva, done => do
    if ← Reader.hasMore then do
      let i ← read rva
      readAll steps (rva + UInt64.ofNat i.size) (done.push i)
    else pure done

/-- The instructions of code that starts at an address. -/
def decode (code : Bytes) (rva : UInt64) : Result (Array Instruction) :=
  (readAll code.size rva #[]).run code

def token? (i : Instruction) : Option Token :=
  match i.operand with
  | .token token => some token
  | _ => none

/-- A token is the last four bytes of its instruction. -/
def tokenOffset? (i : Instruction) : Option Nat := i.token?.map fun _ => i.offset + i.size - 4

def operandText (i : Instruction) : String :=
  match i.operand, i.targets with
  | .none, _ => ""
  | .token token, _ => " " ++ token.text
  | .immediate _, target :: _ => " " ++ Hex.prefixed target.toNat
  | .immediate value, [] => " " ++ value.text
  | .switch _, targets =>
    " (" ++ ", ".intercalate (targets.map fun target => Hex.prefixed target.toNat) ++ ")"

def text (i : Instruction) : String :=
  "IL_" ++ Hex.padded 4 i.offset ++ ": " ++ i.opcode.mnemonic ++ i.operandText

end Instruction

end CliImage
