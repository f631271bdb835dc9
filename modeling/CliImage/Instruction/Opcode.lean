/-!
The instruction set: for each opcode its mnemonic, its operand and where control goes. Reserved
opcodes have no entry.
-/

namespace CliImage

inductive OperandKind
  | none
  | int8
  | uint8
  | uint16
  | int32
  | int64
  | float32
  | float64
  | token
  | switch
  deriving DecidableEq, Repr, Inhabited

inductive Flow
  | sequential
  | conditionalBranch
  | unconditionalBranch
  | switch
  | call
  | return
  | throw
  | endFinally
  deriving DecidableEq, Repr, Inhabited

def Flow.name : Flow → String
  | sequential => "Sequential"
  | conditionalBranch => "ConditionalBranch"
  | unconditionalBranch => "UnconditionalBranch"
  | switch => "Switch"
  | call => "Call"
  | .return => "Return"
  | throw => "Throw"
  | endFinally => "EndFinally"

structure Opcode where
  mnemonic : String
  operand : OperandKind
  flow : Flow
  deriving DecidableEq, Repr, Inhabited

namespace Opcode

def plain (mnemonic : String) : Option Opcode := some ⟨mnemonic, .none, .sequential⟩

def takes (operand : OperandKind) (mnemonic : String) : Option Opcode :=
  some ⟨mnemonic, operand, .sequential⟩

def leads (flow : Flow) (operand : OperandKind) (mnemonic : String) : Option Opcode :=
  some ⟨mnemonic, operand, flow⟩

/-- Opcodes of one byte. -/
def single : Array (Option Opcode) := #[
  plain "nop", plain "break", plain "ldarg.0", plain "ldarg.1", plain "ldarg.2", plain "ldarg.3",
  plain "ldloc.0", plain "ldloc.1", plain "ldloc.2", plain "ldloc.3", plain "stloc.0",
  plain "stloc.1", plain "stloc.2", plain "stloc.3", takes .uint8 "ldarg.s",
  takes .uint8 "ldarga.s", takes .uint8 "starg.s", takes .uint8 "ldloc.s", takes .uint8 "ldloca.s",
  takes .uint8 "stloc.s", plain "ldnull", plain "ldc.i4.m1", plain "ldc.i4.0", plain "ldc.i4.1",
  plain "ldc.i4.2", plain "ldc.i4.3", plain "ldc.i4.4", plain "ldc.i4.5", plain "ldc.i4.6",
  plain "ldc.i4.7", plain "ldc.i4.8", takes .int8 "ldc.i4.s", takes .int32 "ldc.i4",
  takes .int64 "ldc.i8", takes .float32 "ldc.r4", takes .float64 "ldc.r8", none, plain "dup",
  plain "pop", leads .call .token "jmp", leads .call .token "call", leads .call .token "calli",
  leads .return .none "ret", leads .unconditionalBranch .int8 "br.s",
  leads .conditionalBranch .int8 "brfalse.s", leads .conditionalBranch .int8 "brtrue.s",
  leads .conditionalBranch .int8 "beq.s", leads .conditionalBranch .int8 "bge.s",
  leads .conditionalBranch .int8 "bgt.s", leads .conditionalBranch .int8 "ble.s",
  leads .conditionalBranch .int8 "blt.s", leads .conditionalBranch .int8 "bne.un.s",
  leads .conditionalBranch .int8 "bge.un.s", leads .conditionalBranch .int8 "bgt.un.s",
  leads .conditionalBranch .int8 "ble.un.s", leads .conditionalBranch .int8 "blt.un.s",
  leads .unconditionalBranch .int32 "br", leads .conditionalBranch .int32 "brfalse",
  leads .conditionalBranch .int32 "brtrue", leads .conditionalBranch .int32 "beq",
  leads .conditionalBranch .int32 "bge", leads .conditionalBranch .int32 "bgt",
  leads .conditionalBranch .int32 "ble", leads .conditionalBranch .int32 "blt",
  leads .conditionalBranch .int32 "bne.un", leads .conditionalBranch .int32 "bge.un",
  leads .conditionalBranch .int32 "bgt.un", leads .conditionalBranch .int32 "ble.un",
  leads .conditionalBranch .int32 "blt.un", leads .switch .switch "switch", plain "ldind.i1",
  plain "ldind.u1", plain "ldind.i2", plain "ldind.u2", plain "ldind.i4", plain "ldind.u4",
  plain "ldind.i8", plain "ldind.i", plain "ldind.r4", plain "ldind.r8", plain "ldind.ref",
  plain "stind.ref", plain "stind.i1", plain "stind.i2", plain "stind.i4", plain "stind.i8",
  plain "stind.r4", plain "stind.r8", plain "add", plain "sub", plain "mul", plain "div",
  plain "div.un", plain "rem", plain "rem.un", plain "and", plain "or", plain "xor", plain "shl",
  plain "shr", plain "shr.un", plain "neg", plain "not", plain "conv.i1", plain "conv.i2",
  plain "conv.i4", plain "conv.i8", plain "conv.r4", plain "conv.r8", plain "conv.u4",
  plain "conv.u8", leads .call .token "callvirt", takes .token "cpobj", takes .token "ldobj",
  takes .token "ldstr", leads .call .token "newobj", takes .token "castclass",
  takes .token "isinst", plain "conv.r.un", none, none, takes .token "unbox",
  leads .throw .none "throw", takes .token "ldfld", takes .token "ldflda", takes .token "stfld",
  takes .token "ldsfld", takes .token "ldsflda", takes .token "stsfld", takes .token "stobj",
  plain "conv.ovf.i1.un", plain "conv.ovf.i2.un", plain "conv.ovf.i4.un", plain "conv.ovf.i8.un",
  plain "conv.ovf.u1.un", plain "conv.ovf.u2.un", plain "conv.ovf.u4.un", plain "conv.ovf.u8.un",
  plain "conv.ovf.i.un", plain "conv.ovf.u.un", takes .token "box", takes .token "newarr",
  plain "ldlen", takes .token "ldelema", plain "ldelem.i1", plain "ldelem.u1", plain "ldelem.i2",
  plain "ldelem.u2", plain "ldelem.i4", plain "ldelem.u4", plain "ldelem.i8", plain "ldelem.i",
  plain "ldelem.r4", plain "ldelem.r8", plain "ldelem.ref", plain "stelem.i", plain "stelem.i1",
  plain "stelem.i2", plain "stelem.i4", plain "stelem.i8", plain "stelem.r4", plain "stelem.r8",
  plain "stelem.ref", takes .token "ldelem", takes .token "stelem", takes .token "unbox.any", none,
  none, none, none, none, none, none, none, none, none, none, none, none, plain "conv.ovf.i1",
  plain "conv.ovf.u1", plain "conv.ovf.i2", plain "conv.ovf.u2", plain "conv.ovf.i4",
  plain "conv.ovf.u4", plain "conv.ovf.i8", plain "conv.ovf.u8", none, none, none, none, none,
  none, none, takes .token "refanyval", plain "ckfinite", none, none, takes .token "mkrefany",
  none, none, none, none, none, none, none, none, none, takes .token "ldtoken", plain "conv.u2",
  plain "conv.u1", plain "conv.i", plain "conv.ovf.i", plain "conv.ovf.u", plain "add.ovf",
  plain "add.ovf.un", plain "mul.ovf", plain "mul.ovf.un", plain "sub.ovf", plain "sub.ovf.un",
  leads .endFinally .none "endfinally", leads .unconditionalBranch .int32 "leave",
  leads .unconditionalBranch .int8 "leave.s", plain "stind.i", plain "conv.u"]

/-- Opcodes of two bytes, by the byte behind the first, which is 0xFE. -/
def extended : Array (Option Opcode) := #[
  plain "arglist", plain "ceq", plain "cgt", plain "cgt.un", plain "clt", plain "clt.un",
  takes .token "ldftn", takes .token "ldvirtftn", none, takes .uint16 "ldarg",
  takes .uint16 "ldarga", takes .uint16 "starg", takes .uint16 "ldloc", takes .uint16 "ldloca",
  takes .uint16 "stloc", plain "localloc", none, leads .endFinally .none "endfilter",
  takes .uint8 "unaligned.", plain "volatile.", plain "tail.", takes .token "initobj",
  takes .token "constrained.", plain "cpblk", plain "initblk", takes .uint8 "no.",
  leads .throw .none "rethrow", none, takes .token "sizeof", plain "refanytype", plain "readonly."]

def escape : UInt8 := 0xFE

end Opcode

end CliImage
