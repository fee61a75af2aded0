import Reroute.Code.Operand
/-!
# The opcode tables

Opcodes are one byte, or two bytes of which the first is `0xFE`. Each table
lists its opcodes by their last byte: the mnemonic, the kind of operand, and
how control goes on. Unassigned bytes inside a table are reserved and carry
no mnemonic. Decoding and encoding both go through these tables, so an
opcode cannot be read one way and written another.
-/

namespace Reroute

/-- How control leaves an instruction. -/
inductive Flow where
  | sequential
  | conditionalBranch
  | unconditionalBranch
  | call
  | return
  | switch
  | throw
  | endFinally
  | leave
  /-- An instruction that changes the one behind it. -/
  | modifier
  deriving Repr, DecidableEq

namespace Flow

def all : List Flow :=
  [.sequential, .conditionalBranch, .unconditionalBranch, .call, .return, .switch, .throw,
   .endFinally, .leave, .modifier]

/-- The name of a flow in listings. -/
def name : Flow → String
  | .sequential => "Sequential"
  | .conditionalBranch => "ConditionalBranch"
  | .unconditionalBranch => "UnconditionalBranch"
  | .call => "Call"
  | .return => "Return"
  | .switch => "Switch"
  | .throw => "Throw"
  | .endFinally => "EndFinally"
  | .leave => "Leave"
  | .modifier => "Prefix"

/-- Whether control may go to a place that the operand names. -/
def isBranch : Flow → Bool
  | .conditionalBranch | .unconditionalBranch | .switch | .leave => true
  | _ => false

/-- Whether control never goes on to the next instruction. -/
def isTerminal : Flow → Bool
  | .return | .throw | .unconditionalBranch | .leave | .endFinally => true
  | _ => false

end Flow

/-- A row of an opcode table. -/
structure Opcode where
  mnemonic : String
  kind : OperandKind
  flow : Flow
  deriving Repr, DecidableEq

namespace Opcode

/-- The row of a byte that no opcode uses. -/
def reserved : Opcode := ⟨"", .none, .sequential⟩

def isReserved (o : Opcode) : Bool := o.mnemonic == ""

def plain (mnemonic : String) : Opcode := ⟨mnemonic, .none, .sequential⟩

def branchShort (mnemonic : String) : Opcode := ⟨mnemonic, .shortBranchTarget, .conditionalBranch⟩

def branch (mnemonic : String) : Opcode := ⟨mnemonic, .branchTarget, .conditionalBranch⟩

def typed (mnemonic : String) : Opcode := ⟨mnemonic, .type, .sequential⟩

def fieldwise (mnemonic : String) : Opcode := ⟨mnemonic, .field, .sequential⟩

/-- The opcodes of one byte. -/
def oneByte : List Opcode :=
  [plain "nop", plain "break", plain "ldarg.0", plain "ldarg.1",
   plain "ldarg.2", plain "ldarg.3", plain "ldloc.0", plain "ldloc.1",
   plain "ldloc.2", plain "ldloc.3", plain "stloc.0", plain "stloc.1",
   plain "stloc.2", plain "stloc.3",
   ⟨"ldarg.s", .uint8, .sequential⟩, ⟨"ldarga.s", .uint8, .sequential⟩,
   ⟨"starg.s", .uint8, .sequential⟩, ⟨"ldloc.s", .uint8, .sequential⟩,
   ⟨"ldloca.s", .uint8, .sequential⟩, ⟨"stloc.s", .uint8, .sequential⟩,
   plain "ldnull", plain "ldc.i4.m1", plain "ldc.i4.0", plain "ldc.i4.1",
   plain "ldc.i4.2", plain "ldc.i4.3", plain "ldc.i4.4", plain "ldc.i4.5",
   plain "ldc.i4.6", plain "ldc.i4.7", plain "ldc.i4.8", ⟨"ldc.i4.s", .int8, .sequential⟩,
   ⟨"ldc.i4", .int32, .sequential⟩, ⟨"ldc.i8", .int64, .sequential⟩,
   ⟨"ldc.r4", .float32, .sequential⟩, ⟨"ldc.r8", .float64, .sequential⟩,
   reserved, plain "dup", plain "pop", ⟨"jmp", .method, .call⟩,
   ⟨"call", .method, .call⟩, ⟨"calli", .sig, .call⟩,
   ⟨"ret", .none, .return⟩, ⟨"br.s", .shortBranchTarget, .unconditionalBranch⟩,
   branchShort "brfalse.s", branchShort "brtrue.s", branchShort "beq.s", branchShort "bge.s",
   branchShort "bgt.s", branchShort "ble.s", branchShort "blt.s", branchShort "bne.un.s",
   branchShort "bge.un.s", branchShort "bgt.un.s", branchShort "ble.un.s", branchShort "blt.un.s",
   ⟨"br", .branchTarget, .unconditionalBranch⟩, branch "brfalse", branch "brtrue", branch "beq",
   branch "bge", branch "bgt", branch "ble", branch "blt",
   branch "bne.un", branch "bge.un", branch "bgt.un", branch "ble.un",
   branch "blt.un", ⟨"switch", .switch, .switch⟩, plain "ldind.i1", plain "ldind.u1",
   plain "ldind.i2", plain "ldind.u2", plain "ldind.i4", plain "ldind.u4",
   plain "ldind.i8", plain "ldind.i", plain "ldind.r4", plain "ldind.r8",
   plain "ldind.ref", plain "stind.ref", plain "stind.i1", plain "stind.i2",
   plain "stind.i4", plain "stind.i8", plain "stind.r4", plain "stind.r8",
   plain "add", plain "sub", plain "mul", plain "div",
   plain "div.un", plain "rem", plain "rem.un", plain "and",
   plain "or", plain "xor", plain "shl", plain "shr",
   plain "shr.un", plain "neg", plain "not", plain "conv.i1",
   plain "conv.i2", plain "conv.i4", plain "conv.i8", plain "conv.r4",
   plain "conv.r8", plain "conv.u4", plain "conv.u8", ⟨"callvirt", .method, .call⟩,
   typed "cpobj", typed "ldobj", ⟨"ldstr", .string, .sequential⟩, ⟨"newobj", .method, .call⟩,
   typed "castclass", typed "isinst", plain "conv.r.un", reserved,
   reserved, typed "unbox", ⟨"throw", .none, .throw⟩, fieldwise "ldfld",
   fieldwise "ldflda", fieldwise "stfld", fieldwise "ldsfld", fieldwise "ldsflda",
   fieldwise "stsfld", typed "stobj", plain "conv.ovf.i1.un", plain "conv.ovf.i2.un",
   plain "conv.ovf.i4.un", plain "conv.ovf.i8.un", plain "conv.ovf.u1.un", plain "conv.ovf.u2.un",
   plain "conv.ovf.u4.un", plain "conv.ovf.u8.un", plain "conv.ovf.i.un", plain "conv.ovf.u.un",
   typed "box", typed "newarr", plain "ldlen", typed "ldelema",
   plain "ldelem.i1", plain "ldelem.u1", plain "ldelem.i2", plain "ldelem.u2",
   plain "ldelem.i4", plain "ldelem.u4", plain "ldelem.i8", plain "ldelem.i",
   plain "ldelem.r4", plain "ldelem.r8", plain "ldelem.ref", plain "stelem.i",
   plain "stelem.i1", plain "stelem.i2", plain "stelem.i4", plain "stelem.i8",
   plain "stelem.r4", plain "stelem.r8", plain "stelem.ref", typed "ldelem",
   typed "stelem", typed "unbox.any", reserved, reserved,
   reserved, reserved, reserved, reserved,
   reserved, reserved, reserved, reserved,
   reserved, reserved, reserved, plain "conv.ovf.i1",
   plain "conv.ovf.u1", plain "conv.ovf.i2", plain "conv.ovf.u2", plain "conv.ovf.i4",
   plain "conv.ovf.u4", plain "conv.ovf.i8", plain "conv.ovf.u8", reserved,
   reserved, reserved, reserved, reserved,
   reserved, reserved, typed "refanyval", plain "ckfinite",
   reserved, reserved, typed "mkrefany", reserved,
   reserved, reserved, reserved, reserved,
   reserved, reserved, reserved, reserved,
   ⟨"ldtoken", .tok, .sequential⟩, plain "conv.u2", plain "conv.u1", plain "conv.i",
   plain "conv.ovf.i", plain "conv.ovf.u", plain "add.ovf", plain "add.ovf.un",
   plain "mul.ovf", plain "mul.ovf.un", plain "sub.ovf", plain "sub.ovf.un",
   ⟨"endfinally", .none, .endFinally⟩, ⟨"leave", .branchTarget, .leave⟩,
   ⟨"leave.s", .shortBranchTarget, .leave⟩, plain "stind.i",
   plain "conv.u"]

/-- The opcodes behind the lead byte. -/
def twoByte : List Opcode :=
  [plain "arglist", plain "ceq", plain "cgt", plain "cgt.un",
   plain "clt", plain "clt.un",
   ⟨"ldftn", .method, .sequential⟩, ⟨"ldvirtftn", .method, .sequential⟩,
   reserved, ⟨"ldarg", .uint16, .sequential⟩,
   ⟨"ldarga", .uint16, .sequential⟩, ⟨"starg", .uint16, .sequential⟩,
   ⟨"ldloc", .uint16, .sequential⟩, ⟨"ldloca", .uint16, .sequential⟩,
   ⟨"stloc", .uint16, .sequential⟩, plain "localloc",
   reserved, ⟨"endfilter", .none, .endFinally⟩,
   ⟨"unaligned.", .int8, .modifier⟩, ⟨"volatile.", .none, .modifier⟩,
   ⟨"tail.", .none, .modifier⟩, typed "initobj", ⟨"constrained.", .type, .modifier⟩, plain "cpblk",
   plain "initblk", ⟨"no.", .int8, .modifier⟩, ⟨"rethrow", .none, .throw⟩, reserved,
   typed "sizeof", plain "refanytype", ⟨"readonly.", .none, .modifier⟩]

/-- The first byte of an opcode of two bytes. -/
def twoByteLead : UInt8 := 0xFE

/-- The table that a lead byte selects; zero stands for none. -/
def table? (lead : UInt8) : Option (List Opcode) :=
  if lead = 0 then some oneByte else if lead = twoByteLead then some twoByte else none

/-- The opcode with the given bytes. -/
def find? (lead opcode : UInt8) : Option Opcode := do
  let row ← (← table? lead)[opcode.toNat]?
  if row.isReserved then none else some row

/-- The bytes and the row of the first opcode with a mnemonic. -/
def ofMnemonic? (mnemonic : String) : Option (UInt8 × UInt8 × Opcode) :=
  let search (lead : UInt8) (rows : List Opcode) : Option (UInt8 × UInt8 × Opcode) := do
    let index ← rows.findIdx? fun row => !row.isReserved && row.mnemonic == mnemonic
    return (lead, UInt8.ofNat index, ← rows[index]?)
  search 0 oneByte <|> search twoByteLead twoByte

end Opcode

end Reroute
