import Reroute.Machine.Pages
import Reroute.Machine.Processor
import Reroute.Native.Dispatch
import Reroute.Native.Stub
/-!
# Calls from native code

A native caller puts its words where the calling convention wants them and
jumps to an entry point. The processor runs whatever it finds there until
control reaches the dispatcher, which is a function of the host: it answers
the call, stores the result in the slot that the stub has reserved, and
returns into the stub, which returns to the caller.
-/

namespace Reroute

namespace Native

/-- Where the dispatcher stands. -/
def dispatcher : UInt64 := 0x7F0000000000

/-- Where a call returns to. -/
def caller : UInt64 := 0x7F0000001000

/-- The stack pointer at the entry of a call. -/
def stackTop : UInt64 := 0x7E0000000FF8

/-- The registers of integer arguments in order. -/
def integerArguments : List Reg := [.rdi, .rsi, .rdx, .rcx, .r8, .r9]

/-- Puts a word into a slot of the call that is about to be made. -/
def pass (p : Processor) (slot : Slot) (word : UInt64) : Processor :=
  match slot with
  | .register index =>
    match integerArguments[index]? with
    | some r => p.set r word
    | none =>
      { p with float := fun q =>
          if q.val = index - integerArguments.length then word else p.float q }
  | .stack offset size =>
    { p with memory :=
        p.memory.write (p.reg .rsp + 8 + UInt64.ofNat offset) (Bytes.ofNat size word.toNat) }

/-- The processor at an entry point, with words in their slots. -/
def entering (entry : UInt64) (arguments : List (Slot × UInt64)) (m : Memory) : Processor :=
  let idle : Processor :=
    { reg := fun r => if r = .rsp then stackTop else 0, float := fun _ => 0, next := entry
      memory := m.store stackTop caller }
  arguments.foldl (fun p (slot, word) => pass p slot word) idle

/-- What a native call leaves. -/
structure Outcome (σ : Type) where
  /-- The word that the caller gets. -/
  word : UInt64
  /-- The error that waits to be asked for. -/
  parked : Option Error
  memory : Memory
  state : σ

/-- The error that is parked for a failed call. -/
def parkedError : Error → Error
  | .abandoned => .other Error.abandoned.message
  | error => error

variable {σ : Type}

/-- The dispatcher's part of a call: answers it and stores the result, which
is zero if the call failed. -/
def answer (p : Proxy σ) (registers stack result : UInt64) (m : Memory) (s : σ) :
    Option Error × Memory × σ :=
  match dispatch p registers stack m s with
  | (.ok word, m, s) => (none, m.store result word, s)
  | (.error error, m, s) => (some (parkedError error), m.store result (0 : UInt64), s)

/-- More instructions than an entry point and its stub have. -/
def patience : Nat := 64

/-- A native call of an entry point. The context that reaches the dispatcher
says which proxy answers; there is no outcome if control gets lost. -/
def call (proxy? : UInt64 → Option (Proxy σ)) (entry : UInt64)
    (arguments : List (Slot × UInt64)) (m : Memory) (s : σ) : Option (Outcome σ) := do
  let arrived ← (entering entry arguments m).runTo dispatcher patience
  let p ← proxy? (arrived.reg .rdi)
  let (parked, memory, state) :=
    answer p (arrived.reg .rsi) (arrived.reg .rdx) (arrived.reg .rcx) arrived.memory s
  let (returning, behind) := { arrived with memory }.pop
  let finished ← { behind with next := returning }.runTo caller patience
  some { word := finished.reg .rax, parked, memory := finished.memory, state }

/-- Maps the stub of a proxy. Its context is the address of the stub itself,
which no other proxy has. -/
def emitStub (form : ProxyForm) (s : AddressSpace) : Except Error (UInt64 × AddressSpace) := do
  checkScalar form.signature
  s.emit (Stub.sysV s.free dispatcher)

end Native

/-- A proxy with an entry point for native callers. -/
structure NativeProxy (σ : Type) extends Proxy σ where
  entry : UInt64

namespace NativeProxy

variable {σ : Type}

/-- Maps the stub of a proxy. -/
def generate (p : Proxy σ) (s : AddressSpace) : Except Error (NativeProxy σ × AddressSpace) := do
  let (entry, s) ← Native.emitStub p.toProxyForm s
  return ({ toProxy := p, entry }, s)

/-- A native call of the entry point with the words of the arguments. -/
def call (p : NativeProxy σ) (words : List UInt64) (m : Memory) (s : σ) :
    Option (Native.Outcome σ) :=
  Native.call (fun context => if context = p.entry then some p.toProxy else none) p.entry
    ((Abi.host.classify p.signature.params).zip words) m s

def debugText (p : NativeProxy σ) : String :=
  Text.record "NativeProxy"
    [("entry", "0x" ++ Text.hex p.entry.toNat), ("abi", Abi.host.name),
     ("proxy", p.toProxyForm.debugText)]

end NativeProxy

end Reroute
