import Reroute.Code.Opcode
import Reroute.Bytes.Cursor
/-!
# Instructions and their bytes

An instruction carries what its table row says, its operand, its place in
the stream and the positions it may branch to. `Instruction.read` takes one
off a cursor and `Instruction.encode` gives the bytes of one; encoding looks
only at the opcode and the operand, and refuses an instruction that
disagrees with its own table row. `InstructionStream` hands out
instructions one at a time and stops for good at the first that does not
decode.
-/

namespace Reroute

/-- An instruction at a place in a stream of bytecode. -/
structure Instruction where
  offset : Nat
  size : Nat
  lead : UInt8
  opcode : UInt8
  mnemonic : String
  kind : OperandKind
  flow : Flow
  operand : Operand
  /-- The positions that the operand's distances lead to. -/
  targets : List Nat
  deriving Repr, DecidableEq

namespace Instruction

def isBranch (i : Instruction) : Bool := i.flow.isBranch

def isTerminal (i : Instruction) : Bool := i.flow.isTerminal

def token? (i : Instruction) : Option Token := i.operand.token?

/-- Where the next instruction starts. -/
def next (i : Instruction) : Nat := i.offset + i.size

/-- The label, the mnemonic and the operand; branches show where they lead. -/
def text (i : Instruction) : String :=
  Text.label i.offset ++ ": " ++ i.mnemonic ++
    match i.operand with
    | .none => ""
    | .immediate value => " " ++ value.text
    | .token t => " " ++ t.text
    | .shortTarget _ | .target _ =>
      match i.targets with
      | [] => ""
      | first :: _ => " " ++ Text.label first
    | .switch _ => " (" ++ ", ".intercalate (i.targets.map Text.label) ++ ")"

/-! ## Reading -/

/-- A value inside the instruction at `offset`. -/
def readValue (α : Type) [LittleEndian α] (offset : Nat) : Reader α :=
  (Reader.value α).namingDefect fun _ => .truncatedInstruction offset

/-- Reads `count` distances of a jump table. -/
def readDeltas (offset : Nat) : Nat → Reader (List Int32)
  | 0 => pure []
  | count + 1 => do
    let first ← readValue Int32 offset
    let rest ← readDeltas offset count
    return first :: rest

/-- The operand of a kind. A jump table is refused before it is read if the
bytes ahead cannot hold it. -/
def readOperand (kind : OperandKind) (offset : Nat) : Reader Operand := do
  match kind with
  | .none => return .none
  | .shortBranchTarget => return .shortTarget (← readValue Int8 offset)
  | .branchTarget => return .target (← readValue Int32 offset)
  | .int8 => return .immediate (.int8 (← readValue Int8 offset))
  | .uint8 => return .immediate (.uint8 (← readValue UInt8 offset))
  | .uint16 => return .immediate (.uint16 (← readValue UInt16 offset))
  | .int32 => return .immediate (.int32 (← readValue Int32 offset))
  | .int64 => return .immediate (.int64 (← readValue Int64 offset))
  | .float32 => return .immediate (.float32 (← readValue Binary32 offset))
  | .float64 => return .immediate (.float64 (← readValue Binary64 offset))
  | .string | .field | .method | .type | .tok | .sig =>
    return .token ⟨← readValue UInt32 offset⟩
  | .switch =>
    let count := (← readValue UInt32 offset).toNat
    let remaining ← Reader.remaining
    if remaining / 4 < count then
      Reader.fail (.ofDefect (.switchTooLong offset count remaining))
    else
      return .switch (← readDeltas offset count)

/-- The opcode at the cursor: its lead byte or zero, its last byte, and its
row. First bytes from `0xF8` on announce a second byte. -/
def readOpcode (offset : Nat) : Reader (UInt8 × UInt8 × Opcode) := do
  let first ← readValue UInt8 offset
  if 0xF8 ≤ first then
    let second ← readValue UInt8 offset
    if first ≠ Opcode.twoByteLead then
      Reader.fail (.ofDefect (.unknownLead first second offset))
    else match Opcode.twoByte[second.toNat]? with
      | some row => return (Opcode.twoByteLead, second, row)
      | none => Reader.fail (.ofDefect (.unknownTwoByte second offset))
  else match Opcode.oneByte[first.toNat]? with
    | some row => return (0, first, row)
    | none => Reader.fail (.ofDefect (.unknownOneByte first offset))

/-- The position `delta` bytes from `next`; there is none before the stream. -/
def branchTarget (next : Nat) (delta : Int) : Except Error Nat :=
  let target := (next : Int) + delta
  if target < 0 then .error (.ofDefect (.branchBeforeStart delta next)) else .ok target.toNat

/-- The instruction at the cursor. -/
def read : Reader Instruction := do
  let offset ← Reader.position
  let (lead, opcode, row) ← readOpcode offset
  if row.isReserved then
    Reader.fail (.ofDefect (.reserved lead opcode offset))
  else
    let operand ← readOperand row.kind offset
    let next ← Reader.position
    match operand.deltas.mapM (branchTarget next) with
    | .error error => Reader.fail error
    | .ok targets =>
      return { offset, size := next - offset, lead, opcode, mnemonic := row.mnemonic,
               kind := row.kind, flow := row.flow, operand, targets }

/-- At most `count` instructions, and fewer only if the bytes end. -/
def readMany : (count : Nat) → Reader (List Instruction)
  | 0 => pure []
  | count + 1 => do
    if ← Reader.hasMore then
      let first ← read
      let rest ← readMany count
      return first :: rest
    else
      return []

/-- All instructions up to the end of the bytes. An instruction has at least
one byte, so there are no more of them than bytes. -/
def readAll : Reader (List Instruction) := do
  readMany (← Reader.remaining)

/-- The instructions of a whole byte string. -/
def decode (code : Bytes) : Except Error (List Instruction) := (readAll.runOn code).1

/-! ## Writing -/

/-- The bytes of an operand of a kind. -/
def encodeOperand (i : Instruction) (kind : OperandKind) : Except Error Bytes :=
  match kind, i.operand with
  | .none, .none => .ok []
  | .shortBranchTarget, .shortTarget delta => .ok (LittleEndian.toBytes delta)
  | .branchTarget, .target delta => .ok (LittleEndian.toBytes delta)
  | .int8, .immediate (.int8 value) => .ok (LittleEndian.toBytes value)
  | .uint8, .immediate (.uint8 value) => .ok (LittleEndian.toBytes value)
  | .uint16, .immediate (.uint16 value) => .ok (LittleEndian.toBytes value)
  | .int32, .immediate (.int32 value) => .ok (LittleEndian.toBytes value)
  | .int64, .immediate (.int64 value) => .ok (LittleEndian.toBytes value)
  | .float32, .immediate (.float32 value) => .ok (LittleEndian.toBytes value)
  | .float64, .immediate (.float64 value) => .ok (LittleEndian.toBytes value)
  | .switch, .switch deltas =>
    if deltas.length < UInt32.size then
      .ok (LittleEndian.toBytes (UInt32.ofNat deltas.length) ++
        deltas.flatMap LittleEndian.toBytes)
    else .error (.ofDefect (.tooManyTargets deltas.length))
  | kind, operand =>
    match operand, kind.isToken with
    | .token t, true => .ok (LittleEndian.toBytes t.value)
    | _, _ => .error (.ofDefect (.operandDiffers i.offset i.mnemonic kind operand))

/-- The bytes of an instruction. -/
def encode (i : Instruction) : Except Error Bytes := do
  let some row := Opcode.find? i.lead i.opcode
    | .error (.ofDefect (.noSuchOpcode i.lead i.opcode i.mnemonic))
  if row.mnemonic ≠ i.mnemonic then
    .error (.ofDefect (.mnemonicDiffers i.lead i.opcode row.mnemonic i.mnemonic))
  else if row.kind ≠ i.kind then
    .error (.ofDefect (.kindDiffers i.mnemonic row.kind i.kind))
  else
    let operand ← i.encodeOperand row.kind
    return (if i.lead = 0 then [] else [i.lead]) ++ i.opcode :: operand

/-- Appends an instruction to a buffer, which a failure leaves as it was. -/
def emit (buffer : Bytes) (i : Instruction) : Except Error Unit × Bytes :=
  match i.encode with
  | .ok bytes => (.ok (), buffer ++ bytes)
  | .error error => (.error error, buffer)

/-- The bytes of instructions one behind the other. -/
def encodeAll (instructions : List Instruction) : Except Error Bytes := do
  return (← instructions.mapM encode).flatten

end Instruction

/-- Instructions handed out one at a time. -/
structure InstructionStream where
  cursor : Cursor
  failed : Bool

namespace InstructionStream

/-- The stream at the start of some bytes. -/
def ofCode (code : Bytes) : InstructionStream := ⟨.start code, false⟩

/-- The whole byte string, whatever has been handed out. -/
def code (s : InstructionStream) : Bytes := s.cursor.data

def position (s : InstructionStream) : Nat := s.cursor.position

/-- The stream from its first instruction again. -/
def reset (s : InstructionStream) : InstructionStream := .ofCode s.code

/-- The next instruction or the error in its place; nothing at the end and
nothing behind an error. -/
def next (s : InstructionStream) : Option (Except Error Instruction) × InstructionStream :=
  if s.failed || !s.cursor.hasMore then (none, s)
  else
    match Instruction.read s.cursor with
    | (.ok i, cursor) => (some (.ok i), ⟨cursor, false⟩)
    | (.error error, cursor) => (some (.error error), ⟨cursor, true⟩)

/-- At most `count` further items. -/
def items : (count : Nat) → InstructionStream → List (Except Error Instruction) × InstructionStream
  | 0, s => ([], s)
  | count + 1, s =>
    match s.next with
    | (none, s) => ([], s)
    | (some item, s) =>
      let (rest, s) := items count s
      (item :: rest, s)

/-- Everything that is left; each item takes a byte or ends the stream. -/
def rest (s : InstructionStream) : List (Except Error Instruction) × InstructionStream :=
  s.items (s.cursor.remaining + 1)

end InstructionStream

end Reroute
