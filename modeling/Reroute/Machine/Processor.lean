import Reroute.Machine.Memory
/-!
# A processor for stubs and jumps

The instruction forms of x86-64 that entry stubs and jumps are made of, with
their meaning. Floating-point registers are kept by their low halves, which
are all that these forms touch. `Instr.decode` reads one instruction from
the bytes at the instruction pointer and `Processor.step` carries it out; a
byte sequence of another form stops the processor.
-/

namespace Reroute

/-- The sixteen general registers by number. -/
abbrev Reg := Fin 16

namespace Reg

def rax : Reg := 0
def rcx : Reg := 1
def rdx : Reg := 2
def rbx : Reg := 3
def rsp : Reg := 4
def rbp : Reg := 5
def rsi : Reg := 6
def rdi : Reg := 7
def r8 : Reg := 8
def r9 : Reg := 9

end Reg

/-- A place in memory: a register, or the end of the instruction, and a
distance from it. -/
structure Place64 where
  base : Option Reg
  displacement : Int32
  deriving Repr, DecidableEq

/-- The instruction forms. -/
inductive Instr where
  | push (source : Reg)
  | move (target source : Reg)
  | subtract (target : Reg) (amount : Int32)
  | store (target : Place64) (source : Reg)
  | load (target : Reg) (source : Place64)
  /-- The address of a place. -/
  | address (target : Reg) (source : Place64)
  | storeFloat (target : Place64) (source : Fin 16)
  | loadFloat (target : Fin 16) (source : Reg)
  | constant (target : Reg) (value : UInt64)
  | call (target : Reg)
  | jumpThrough (slot : Place64)
  /-- Takes the frame down: the stack pointer goes back to the frame pointer. -/
  | leave
  | ret
  deriving Repr, DecidableEq

namespace Instr

/-- A register number from three bits and an extension bit. -/
def register (extension : Bool) (bits : UInt8) : Reg :=
  Fin.ofNat 16 ((bits &&& 7).toNat + if extension then 8 else 0)

/-- The second operand of an instruction. -/
inductive Target where
  | register (r : Reg)
  | memory (p : Place64)

/-- The displacement that a mode byte announces, and how many bytes it takes. -/
def displacement? (mode : UInt8) (bytes : Bytes) : Option (Int32 × Nat) :=
  match mode >>> 6, bytes with
  | 0, _ => some (0, 0)
  | 1, d :: _ => some (d.toInt8.toInt32, 1)
  | 2, bytes => if bytes.length < 4 then none else some (LittleEndian.ofBytes (bytes.take 4), 4)
  | _, _ => none

/-- The operand that a mode byte describes, and how many bytes the mode byte
and what belongs to it take. -/
def target? (extension : Bool) : Bytes → Option (Target × Nat)
  | [] => none
  | mode :: rest =>
    if mode >>> 6 = 3 then some (.register (register extension mode), 1)
    else if mode &&& 7 = 4 then
      match rest with
      -- no index, and the stack pointer as base
      | 0x24 :: rest => do
        let (displacement, size) ← displacement? mode rest
        some (.memory ⟨some (register extension 4), displacement⟩, 2 + size)
      | _ => none
    else if mode &&& 0xC7 = 5 then
      if rest.length < 4 then none
      else some (.memory ⟨none, LittleEndian.ofBytes (rest.take 4)⟩, 5)
    else do
      let (displacement, size) ← displacement? mode rest
      some (.memory ⟨some (register extension mode), displacement⟩, 1 + size)

/-- The register field of a mode byte. -/
def field (extension : Bool) : Bytes → Reg
  | [] => 0
  | mode :: _ => register extension (mode >>> 3)

/-- An instruction on 64-bit operands, behind its extension byte. -/
def decodeWide (extension : UInt8) : Bytes → Option (Instr × Nat)
  | [] => none
  | opcode :: rest => do
    let fieldBit := extension &&& 4 != 0
    let baseBit := extension &&& 1 != 0
    let source := field fieldBit rest
    if opcode = 0x89 then
      match ← target? baseBit rest with
      | (.register r, size) => some (.move r source, 1 + size)
      | (.memory p, size) => some (.store p source, 1 + size)
    else if opcode = 0x8B then
      match ← target? baseBit rest with
      | (.register r, size) => some (.move source r, 1 + size)
      | (.memory p, size) => some (.load source p, 1 + size)
    else if opcode = 0x8D then
      match ← target? baseBit rest with
      | (.register _, _) => none
      | (.memory p, size) => some (.address source p, 1 + size)
    else if opcode = 0x81 ∧ source.val % 8 = 5 then
      match ← target? baseBit rest with
      | (.register r, _) =>
        if rest.length < 5 then none
        else some (.subtract r (LittleEndian.ofBytes ((rest.drop 1).take 4)), 6)
      | (.memory _, _) => none
    else if opcode &&& 0xF8 = 0xB8 then
      if rest.length < 8 then none
      else some (.constant (register baseBit opcode) (LittleEndian.ofBytes (rest.take 8)), 9)
    else none

/-- The instruction that some bytes start with, and its length. -/
def decode (bytes : Bytes) : Option (Instr × Nat) :=
  match bytes with
  | 0xC3 :: _ => some (.ret, 1)
  | 0xC9 :: _ => some (.leave, 1)
  | 0x66 :: 0x0F :: 0xD6 :: rest =>
    match target? false rest with
    | some (.memory p, size) => some (.storeFloat p (field false rest), 3 + size)
    | _ => none
  | 0x66 :: 0x48 :: 0x0F :: 0x6E :: rest =>
    match target? false rest with
    | some (.register r, size) => some (.loadFloat (field false rest) r, 4 + size)
    | _ => none
  | 0xFF :: rest =>
    match (field false rest).val, target? false rest with
    | 2, some (.register r, size) => some (.call r, 1 + size)
    | 4, some (.memory p, size) => some (.jumpThrough p, 1 + size)
    | _, _ => none
  | first :: rest =>
    if first &&& 0xF8 = 0x50 then some (.push (register false first), 1)
    else if first &&& 0xF8 = 0x48 then
      (decodeWide first rest).map fun (instr, size) => (instr, 1 + size)
    else none
  | [] => none

/-- The longest instruction. -/
def maxLength : Nat := 15

end Instr

/-- The state of a processor. -/
structure Processor where
  reg : Reg → UInt64
  /-- The low halves of the floating-point registers. -/
  float : Fin 16 → UInt64
  /-- Where the next instruction starts. -/
  next : UInt64
  memory : Memory

namespace Processor

/-- The processor with another value in a register. -/
def set (p : Processor) (r : Reg) (value : UInt64) : Processor :=
  { p with reg := fun q => if q = r then value else p.reg q }

/-- The address of a place; a place without a register counts from the next
instruction. -/
def addressOf (p : Processor) (place : Place64) : UInt64 :=
  let base := match place.base with
    | some r => p.reg r
    | none => p.next
  base + place.displacement.toInt64.toUInt64

/-- The processor with a word on top of its stack. -/
def push (p : Processor) (word : UInt64) : Processor :=
  let top := p.reg .rsp - 8
  { p.set .rsp top with memory := p.memory.store top word }

/-- The word on top of the stack, and the processor without it. -/
def pop (p : Processor) : UInt64 × Processor :=
  (p.memory.value UInt64 (p.reg .rsp), p.set .rsp (p.reg .rsp + 8))

/-- Carries an instruction out; the next one is the one behind it already. -/
def execute (p : Processor) : Instr → Processor
  | .push source => p.push (p.reg source)
  | .move target source => p.set target (p.reg source)
  | .subtract target amount => p.set target (p.reg target - amount.toInt64.toUInt64)
  | .store target source => { p with memory := p.memory.store (p.addressOf target) (p.reg source) }
  | .load target source => p.set target (p.memory.value UInt64 (p.addressOf source))
  | .address target source => p.set target (p.addressOf source)
  | .storeFloat target source =>
    { p with memory := p.memory.store (p.addressOf target) (p.float source) }
  | .loadFloat target source =>
    { p with float := fun q => if q = target then p.reg source else p.float q }
  | .constant target value => p.set target value
  | .call target => { p.push p.next with next := p.reg target }
  | .jumpThrough slot => { p with next := p.memory.value UInt64 (p.addressOf slot) }
  | .leave =>
    let (frame, behind) := (p.set .rsp (p.reg .rbp)).pop
    behind.set .rbp frame
  | .ret =>
    let (target, behind) := p.pop
    { behind with next := target }

/-- Carries out the instruction at the instruction pointer. -/
def step (p : Processor) : Option Processor := do
  let (instr, size) ← Instr.decode (p.memory.read p.next Instr.maxLength)
  some ({ p with next := p.next + UInt64.ofNat size }.execute instr)

/-- Runs until control reaches an address, for at most `fuel` instructions. -/
def runTo (stop : UInt64) : (fuel : Nat) → Processor → Option Processor
  | 0, p => if p.next = stop then some p else none
  | fuel + 1, p => if p.next = stop then some p else (p.step).bind (runTo stop fuel)

end Processor

end Reroute
