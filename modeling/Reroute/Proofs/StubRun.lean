import Mathlib.Tactic.IntervalCases
import Reroute.Native.Call
import Reroute.Proofs.Dispatching
import Reroute.Proofs.Fetching
import Reroute.Proofs.FreshPages
/-!
# What a stub hands to the dispatcher

A stub is code, so what it does is what the processor makes of its bytes. From
its entry it runs to the call of the dispatcher, with the argument registers in
a block on its stack in the order in which slots are numbered (`Stub.Outward`).
When the dispatcher returns it runs on to its caller, with what is in the
result slot by then (`Stub.Home`). Whatever it stores lies in the 144 bytes
below the stack pointer of its caller (`Stub.frame`).

The code is taken apart into its instructions (`Stub.sysV_eq`). The part in
front of the call is run in four pieces, of which the one that stores the
registers is the longest (`Stub.reaches_spilled`).
-/

namespace Reroute

namespace Stub

open Processor

/-! ## What the dispatcher and the caller are to find -/

/-- The words of the argument registers in the order in which slots are numbered. -/
def argumentWords (p : Processor) : List UInt64 :=
  Native.integerArguments.map p.reg ++ ((List.finRange 16).take Abi.floatRegisters).map p.float

/-- The lowest byte of the stack that a stub stores to. -/
def frame (p : Processor) : UInt64 := p.reg .rsp - 0x90

/-- The processor is at the entry of a stub that does not lie on its stack. -/
structure Entered (context dispatcher : UInt64) (p : Processor) : Prop where
  code : p.memory.Has p.next (sysV context dispatcher)
  apart : Memory.Apart p.next (sysV context dispatcher).length (frame p) 0x90

/-- The arguments of the dispatcher, for a stub that was entered by `p`. -/
structure Handed (context : UInt64) (p q : Processor) : Prop where
  context : q.reg .rdi = context
  words : ∀ index word, (argumentWords p)[index]? = some word →
    q.memory.value UInt64 ((Slot.register index).address (q.reg .rsi) (q.reg .rdx)) = word
  stack : q.reg .rdx = p.reg .rsp + 8
  base : q.reg .rbp = p.reg .rsp - 8
  /-- The result slot lies between the stack pointer and the frame pointer. -/
  slot : (q.reg .rcx - q.reg .rsp).toNat + 8 ≤ (q.reg .rbp - q.reg .rsp).toNat
  apart : Memory.Apart (q.reg .rcx) 8 (q.reg .rsi) (8 * (argumentWords p).length)

/-- The way from the entry of a stub through the call of the dispatcher. -/
structure Outward (context dispatcher : UInt64) (p called arrived : Processor) : Prop where
  run : p.Reaches called
  call : Instr.decode (called.memory.read called.next Instr.maxLength) = some (.call .rax, 2)
  target : called.reg .rax = dispatcher
  handed : Handed context p called
  aligned : (p.reg .rsp + 8) % 16 = 0 → called.reg .rsp % 16 = 0
  step : called.step = some arrived
  arrives : arrived.next = dispatcher
  kept : Handed context p arrived
  regs : ∀ r, r ≠ .rsp → arrived.reg r = called.reg r
  rsp : called.reg .rsp = frame p + 8 ∧ arrived.reg .rsp = frame p
  ret : arrived.memory.value UInt64 (arrived.reg .rsp) = called.next + 2
  below : p.memory.SameOutside (frame p) 0x90 arrived.memory
  above : 0x90 ≤ p.reg .rsp → ∀ a, p.reg .rsp ≤ a → arrived.memory.byte a = p.memory.byte a

/-- The dispatcher has returned and has left alone what is not its own. -/
structure Returned (context dispatcher : UInt64) (p arrived q : Processor) : Prop where
  next : q.next = arrived.memory.value UInt64 (arrived.reg .rsp)
  rsp : q.reg .rsp = arrived.reg .rsp + 8
  rbp : q.reg .rbp = arrived.reg .rbp
  code : q.memory.Has p.next (sysV context dispatcher)
  /-- The frame pointer of the caller and the address to return to. -/
  saved : q.memory.read (p.reg .rsp - 8) 16 = arrived.memory.read (p.reg .rsp - 8) 16

/-- The way from there to the caller. -/
structure Home (p arrived q r : Processor) : Prop where
  run : q.Reaches r
  next : r.next = p.memory.value UInt64 (p.reg .rsp)
  rax : r.reg .rax = q.memory.value UInt64 (arrived.reg .rcx)
  xmm0 : r.float 0 = q.memory.value UInt64 (arrived.reg .rcx)
  rsp : r.reg .rsp = p.reg .rsp + 8
  rbp : r.reg .rbp = p.reg .rbp
  memory : r.memory = q.memory

/-! ## The instructions of a stub -/

def enter : Bytes := [0x55]

def prologue : List (Instr × Bytes) :=
  [(.move .rbp .rsp, [0x48, 0x89, 0xE5]),
   (.subtract .rsp 0x80, [0x48, 0x81, 0xEC, frameSize, 0x00, 0x00, 0x00])]

/-- One store for each argument register. -/
def spills : List (Instr × Bytes) :=
  [(.store ⟨some .rsp, 0x00⟩ .rdi, [0x48, 0x89, 0x3C, 0x24]),
   (.store ⟨some .rsp, 0x08⟩ .rsi, [0x48, 0x89, 0x74, 0x24, 0x08]),
   (.store ⟨some .rsp, 0x10⟩ .rdx, [0x48, 0x89, 0x54, 0x24, 0x10]),
   (.store ⟨some .rsp, 0x18⟩ .rcx, [0x48, 0x89, 0x4C, 0x24, 0x18]),
   (.store ⟨some .rsp, 0x20⟩ .r8, [0x4C, 0x89, 0x44, 0x24, 0x20]),
   (.store ⟨some .rsp, 0x28⟩ .r9, [0x4C, 0x89, 0x4C, 0x24, 0x28])] ++
  ((List.finRange 16).take Abi.floatRegisters).map fun n =>
    (.storeFloat ⟨some .rsp, Int32.ofNat (0x30 + 8 * n.val)⟩ n, spillFloat (UInt8.ofNat n.val))

/-- The arguments of the dispatcher, and its address. -/
def setup (context dispatcher : UInt64) : List (Instr × Bytes) :=
  [(.constant .rdi context, [0x48, 0xBF] ++ LittleEndian.toBytes context),
   (.move .rsi .rsp, [0x48, 0x89, 0xE6]),
   (.address .rdx ⟨some .rbp, 0x10⟩, [0x48, 0x8D, 0x55, 0x10]),
   (.address .rcx ⟨some .rsp, 0x70⟩, [0x48, 0x8D, 0x4C, 0x24, resultOffset]),
   (.constant .rax dispatcher, [0x48, 0xB8] ++ LittleEndian.toBytes dispatcher)]

def call : Bytes := [0xFF, 0xD0]

def epilogue : List (Instr × Bytes) :=
  [(.load .rax ⟨some .rsp, 0x70⟩, [0x48, 0x8B, 0x44, 0x24, resultOffset]),
   (.loadFloat (Instr.register false 0) .rax, [0x66, 0x48, 0x0F, 0x6E, 0xC0]),
   (.leave, [0xC9])]

def back : Bytes := [0xC3]

theorem code_spills : code spills = [0x48, 0x89, 0x3C, 0x24] ++ ([0x48, 0x89, 0x74, 0x24, 0x08] ++
    ([0x48, 0x89, 0x54, 0x24, 0x10] ++ ([0x48, 0x89, 0x4C, 0x24, 0x18] ++
    ([0x4C, 0x89, 0x44, 0x24, 0x20] ++ ([0x4C, 0x89, 0x4C, 0x24, 0x28] ++
    ((List.range Abi.floatRegisters).map fun n => spillFloat (UInt8.ofNat n)).flatten))))) :=
  rfl

theorem sysV_eq (context dispatcher : UInt64) : sysV context dispatcher =
    enter ++ (code prologue ++ (code spills ++ (code (setup context dispatcher) ++
      (call ++ (code epilogue ++ back))))) := by
  rw [code_spills]
  unfold sysV
  -- Nothing depends on the bytes of these parts.
  generalize ((List.range Abi.floatRegisters).map fun n =>
    Stub.spillFloat (UInt8.ofNat n)).flatten = floats
  simp only [enter, prologue, setup, call, epilogue, back, code]
  generalize LittleEndian.toBytes context = context
  generalize LittleEndian.toBytes dispatcher = dispatcher
  simp only [List.append_assoc, List.append_nil, List.cons_append, List.nil_append]

theorem spelled_enter : Instr.Spelled (.push .rbp) enter := by decide

theorem spelled_prologue : ∀ x ∈ prologue, x.1.Spelled x.2 := by decide

theorem spelled_spills : ∀ x ∈ spills, x.1.Spelled x.2 := by decide

theorem spelled_setup (context dispatcher : UInt64) :
    ∀ x ∈ setup context dispatcher, x.1.Spelled x.2 := by
  intro x hx
  simp only [setup, List.mem_cons, List.not_mem_nil, or_false] at hx
  rcases hx with rfl | rfl | rfl | rfl | rfl
  · exact Instr.spelled_constant (by decide) context
  · decide
  · decide
  · decide
  · exact Instr.spelled_constant (by decide) dispatcher

theorem spelled_call : Instr.Spelled (.call .rax) call := by decide

theorem spelled_epilogue : ∀ x ∈ epilogue, x.1.Spelled x.2 := by decide

theorem spelled_back : Instr.Spelled .ret back := by decide

theorem stores_spills (p : Processor) (k : Nat) (x : Instr × Bytes) (word : UInt64)
    (hx : spills[k]? = some x) (hword : (argumentWords p)[k]? = some word) :
    p.Stores x.1 (p.reg .rsp + UInt64.ofNat (8 * k)) word := by
  have hk : k < 14 := (List.getElem?_eq_some_iff.mp hx).1
  -- One case for each argument register.
  interval_cases k <;> cases hx <;> cases hword <;> exact fun _ _ => rfl

variable {context dispatcher : UInt64} {p : Processor} {m : Memory}

theorem length_setup : (code (setup context dispatcher)).length = 32 := by
  simp only [setup, code, List.length_append, LittleEndian.length_toBytes]
  rfl

theorem isQuiet_setup : ∀ x ∈ setup context dispatcher, x.1.isQuiet := by
  simp [setup, Instr.isQuiet]

/-- Where the parts of a stub are. -/
theorem has_sysV_iff {a : UInt64} : m.Has a (sysV context dispatcher) ↔
    m.Has a enter ∧ m.Has (a + UInt64.ofNat 1) (code prologue) ∧
      m.Has (a + UInt64.ofNat 11) (code spills) ∧
      m.Has (a + UInt64.ofNat 88) (code (setup context dispatcher)) ∧
      m.Has (a + UInt64.ofNat 120) call ∧ m.Has (a + UInt64.ofNat 122) (code epilogue) ∧
      m.Has (a + UInt64.ofNat 133) back := by
  rw [sysV_eq, Memory.has_append_iff, Memory.has_append_iff, Memory.has_append_iff,
    Memory.has_append_iff, Memory.has_append_iff, Memory.has_append_iff, length_setup]
  simp only [UInt64.add_assoc, ← UInt64.ofNat_add]
  rfl

theorem Entered.has (h : Entered context dispatcher p)
    (hsame : p.memory.SameOutside (frame p) 0x90 m) : m.Has p.next (sysV context dispatcher) := by
  refine h.code.of_sameOutside hsame h.apart ?_
  rw [AddressSpace.length_stub]
  decide

/-! ## The states between the pieces -/

def pushed (p : Processor) : Processor := p.advance (.push .rbp) enter.length

def framed (p : Processor) : Processor := (pushed p).carry prologue

def spilled (p : Processor) : Processor :=
  (framed p).stored (frame p + UInt64.ofNat 8) (argumentWords p) 77

def calling (context dispatcher : UInt64) (p : Processor) : Processor :=
  (spilled p).carry (setup context dispatcher)

def arriving (context dispatcher : UInt64) (p : Processor) : Processor :=
  (calling context dispatcher p).advance (.call .rax) call.length

theorem rsp_eq (p : Processor) : p.reg .rsp = frame p + UInt64.ofNat 0x90 := by
  show p.reg .rsp = p.reg .rsp - 0x90 + 0x90
  grind

theorem rsp_pushed (p : Processor) : p.reg .rsp - 8 = frame p + UInt64.ofNat 0x88 := by
  show p.reg .rsp - 8 = p.reg .rsp - 0x90 + 0x88
  grind

theorem rsp_framed (p : Processor) : p.reg .rsp - 8 - 0x80 = frame p + UInt64.ofNat 8 := by
  show p.reg .rsp - 8 - 0x80 = p.reg .rsp - 0x90 + 8
  grind

theorem rsp_arriving (p : Processor) : p.reg .rsp - 8 - 0x80 - 8 = frame p + UInt64.ofNat 0 := by
  show p.reg .rsp - 8 - 0x80 - 8 = p.reg .rsp - 0x90 + 0
  grind

theorem memory_pushed (p : Processor) :
    (pushed p).memory = p.memory.store (frame p + UInt64.ofNat 0x88) (p.reg .rbp) := by
  rw [← rsp_pushed]
  rfl

theorem sameOutside_pushed (p : Processor) :
    p.memory.SameOutside (frame p) 0x90 (pushed p).memory := by
  rw [memory_pushed]
  exact (Memory.sameOutside_store p.memory _ _).widen (by decide) (by decide)

theorem sameOutside_spilled (p : Processor) :
    (framed p).memory.SameOutside (frame p + UInt64.ofNat 8) 0x70 (spilled p).memory :=
  sameOutside_stored _ _ (argumentWords p) _

theorem memory_arriving : (arriving context dispatcher p).memory =
    (calling context dispatcher p).memory.store (frame p + UInt64.ofNat 0)
      ((calling context dispatcher p).next + 2) := by
  rw [← rsp_arriving]
  rfl

theorem sameOutside_arriving (context dispatcher : UInt64) (p : Processor) :
    (calling context dispatcher p).memory.SameOutside (frame p + UInt64.ofNat 0) 8
      (arriving context dispatcher p).memory := by
  rw [memory_arriving]
  exact Memory.sameOutside_store _ _ ((calling context dispatcher p).next + 2)

/-! ## Out -/

section out

variable (h : Entered context dispatcher p)

include h

theorem reaches_framed : p.Reaches (framed p) ∧ (framed p).memory = (pushed p).memory ∧
    (framed p).next = p.next + UInt64.ofNat 11 := by
  have hpush := reaches_of_spelled (has_sysV_iff.mp h.code).1 spelled_enter
  obtain ⟨hrun, hmemory, hnext⟩ := reaches_of_isQuiet (p := pushed p)
    (has_sysV_iff.mp (h.has (sameOutside_pushed p))).2.1 spelled_prologue (by decide)
  have hsum : p.next + UInt64.ofNat 1 + UInt64.ofNat 10 = p.next + UInt64.ofNat 11 := by
    rw [UInt64.add_assoc, ← UInt64.ofNat_add]
  exact ⟨hpush.trans hrun, hmemory, hnext.trans hsum⟩

theorem reaches_spilled : p.Reaches (spilled p) ∧
    p.memory.SameOutside (frame p) 0x90 (spilled p).memory ∧
    (spilled p).next = p.next + UInt64.ofNat 88 := by
  obtain ⟨hrun, hmemory, hnext⟩ := reaches_framed h
  -- The words go into the frame, so no store of one hits the code of the next.
  have hsame := sameOutside_pushed p
  rw [← hmemory] at hsame
  have hcode := (has_sysV_iff.mp (h.has hsame)).2.2.1
  have hapart := h.apart
  rw [AddressSpace.length_stub] at hapart
  have hblock : Memory.Apart (p.next + UInt64.ofNat 11) 77 (frame p + UInt64.ofNat 8) 0x70 :=
    hapart.within (by decide) (by decide) (by decide) (by decide)
  have hstores := stores_spills (framed p)
  rw [← hnext] at hcode hblock
  rw [show (framed p).reg .rsp = frame p + UInt64.ofNat 8 from rsp_framed p] at hstores
  have hspills : (framed p).Reaches (spilled p) := reaches_of_stores hcode spelled_spills
    (by decide) (show 8 * 14 < UInt64.size by decide) hblock rfl hstores
  have hsum : p.next + UInt64.ofNat 11 + UInt64.ofNat 77 = p.next + UInt64.ofNat 88 := by
    rw [UInt64.add_assoc, ← UInt64.ofNat_add]
  refine ⟨hrun.trans hspills, ?_, ?_⟩
  · exact hsame.trans ((sameOutside_spilled p).widen (by decide) (by decide))
  · rw [← hsum, ← hnext]
    rfl

theorem reaches_calling : p.Reaches (calling context dispatcher p) ∧
    (calling context dispatcher p).memory = (spilled p).memory ∧
    (calling context dispatcher p).next = p.next + UInt64.ofNat 120 := by
  obtain ⟨hrun, hsame, hnext⟩ := reaches_spilled h
  have hcode := (has_sysV_iff.mp (h.has hsame)).2.2.2.1
  rw [← hnext] at hcode
  obtain ⟨hrun', hmemory, hnext'⟩ :=
    reaches_of_isQuiet hcode (spelled_setup context dispatcher) isQuiet_setup
  rw [length_setup, hnext, UInt64.add_assoc, ← UInt64.ofNat_add] at hnext'
  exact ⟨hrun.trans hrun', hmemory, hnext'⟩

theorem step_calling : (calling context dispatcher p).memory.Has
      (calling context dispatcher p).next call ∧
    (calling context dispatcher p).step = some (arriving context dispatcher p) := by
  obtain ⟨-, hmemory, hnext⟩ := reaches_calling h
  have hsame := (reaches_spilled h).2.1
  rw [← hmemory] at hsame
  have hcode := (has_sysV_iff.mp (h.has hsame)).2.2.2.2.1
  rw [← hnext] at hcode
  refine ⟨hcode, ?_⟩
  rw [arriving]
  exact step_of_spelled hcode spelled_call

theorem sameOutside_out :
    p.memory.SameOutside (frame p) 0x90 (arriving context dispatcher p).memory := by
  obtain ⟨-, hmemory, -⟩ := reaches_calling h
  have hsame := (reaches_spilled h).2.1
  rw [← hmemory] at hsame
  exact hsame.trans ((sameOutside_arriving context dispatcher p).widen (by decide) (by decide))

/-- The block of the argument registers, where the dispatcher is called and where it starts. -/
theorem has_block :
    (calling context dispatcher p).memory.Has (frame p + UInt64.ofNat 8)
      ((argumentWords p).flatMap LittleEndian.toBytes) ∧
    (arriving context dispatcher p).memory.Has (frame p + UInt64.ofNat 8)
      ((argumentWords p).flatMap LittleEndian.toBytes) := by
  have hlength : ((argumentWords p).flatMap LittleEndian.toBytes).length = 0x70 :=
    Memory.length_flatMap_toBytes _
  obtain ⟨-, hmemory, -⟩ := reaches_calling h
  have hcalling : (calling context dispatcher p).memory.Has (frame p + UInt64.ofNat 8)
      ((argumentWords p).flatMap LittleEndian.toBytes) := by
    rw [hmemory]
    exact Memory.read_write (framed p).memory _ _ (by rw [hlength]; decide)
  refine ⟨hcalling, hcalling.of_sameOutside (sameOutside_arriving context dispatcher p) ?_ ?_⟩
  · rw [hlength]
    exact Memory.apart_offsets (frame p) (by decide) (by decide) (by decide)
  · rw [hlength]
    decide

end out

theorem handed_of_frame {q : Processor} {off : Nat} (hoff : off ≤ 8)
    (hcontext : q.reg .rdi = context) (hblock : q.reg .rsi = p.reg .rsp - 8 - 0x80)
    (hstack : q.reg .rdx = p.reg .rsp - 8 + 0x10)
    (hslot : q.reg .rcx = p.reg .rsp - 8 - 0x80 + 0x70)
    (hbase : q.reg .rbp = p.reg .rsp - 8) (htop : q.reg .rsp = frame p + UInt64.ofNat off)
    (hwords : q.memory.Has (frame p + UInt64.ofNat 8)
      ((argumentWords p).flatMap LittleEndian.toBytes)) : Handed context p q := by
  have hslot' : q.reg .rcx = frame p + UInt64.ofNat 0x78 := by
    rw [hslot, rsp_framed, UInt64.add_assoc]
    rfl
  rw [rsp_framed] at hblock
  refine ⟨hcontext, fun index word hword => ?_, ?_, hbase, ?_, ?_⟩
  · rw [hblock]
    exact Memory.value_of_has hwords hword
  · rw [hstack]
    grind
  · rw [hslot', hbase, rsp_pushed, htop,
      Memory.toNat_offset_sub (frame p) (by omega) (by decide),
      Memory.toNat_offset_sub (frame p) (by omega) (by decide)]
    omega
  · rw [hslot', hblock]
    exact Memory.apart_offsets (frame p) (.inr (Nat.le_refl 0x78)) (by decide)
      (show 8 + 8 * 14 < UInt64.size by decide)

theorem aligned_of_entry (top : UInt64) (h : (top + 8) % 16 = 0) : (top - 8 - 0x80) % 16 = 0 := by
  grind

theorem above_frame {a : UInt64} (hroom : 0x90 ≤ p.reg .rsp) (ha : p.reg .rsp ≤ a) :
    0x90 ≤ (a - frame p).toNat := by
  have hfar : a - frame p = a - p.reg .rsp + 0x90 := by
    rw [frame]
    grind
  have hsize : (0x90 : UInt64).toNat = 0x90 := rfl
  have hlt := a.toNat_lt
  rw [hfar, UInt64.toNat_add, UInt64.toNat_sub_of_le _ _ ha]
  rw [UInt64.le_iff_toNat_le] at hroom ha
  omega

/-- The first half of a run. -/
theorem outward (h : Entered context dispatcher p) : Outward context dispatcher p
    (calling context dispatcher p) (arriving context dispatcher p) where
  run := (reaches_calling h).1
  call := decode_of_spelled (step_calling h).1 spelled_call
  target := rfl
  handed := handed_of_frame (Nat.le_refl 8) rfl rfl rfl rfl rfl (rsp_framed p) (has_block h).1
  aligned := aligned_of_entry (p.reg .rsp)
  step := (step_calling h).2
  arrives := rfl
  kept := handed_of_frame (Nat.zero_le 8) rfl rfl rfl rfl rfl (rsp_arriving p) (has_block h).2
  regs := fun _ hr => if_neg hr
  rsp := ⟨rsp_framed p, (rsp_arriving p).trans (UInt64.add_zero _)⟩
  ret := by
    rw [show (arriving context dispatcher p).reg .rsp = _ from rsp_arriving p, memory_arriving]
    exact Memory.value_store _ _ _ (by decide)
  below := sameOutside_out h
  above := fun hroom a ha => sameOutside_out h a (above_frame hroom ha)

/-! ## Home -/

/-- The saved words are above the block, and above what the call stores. -/
theorem saved_arriving (h : Entered context dispatcher p) :
    (arriving context dispatcher p).memory.value UInt64 (p.reg .rsp - 8) = p.reg .rbp ∧
      (arriving context dispatcher p).memory.value UInt64 (p.reg .rsp) =
        p.memory.value UInt64 (p.reg .rsp) := by
  constructor
  · rw [rsp_pushed]
    have hpushed : (pushed p).memory.value UInt64 (frame p + UInt64.ofNat 0x88) = p.reg .rbp := by
      rw [memory_pushed]
      exact Memory.value_store _ _ _ (by decide)
    have hblock : Memory.Apart (frame p + UInt64.ofNat 0x88) 8 (frame p + UInt64.ofNat 8) 0x70 :=
      Memory.apart_offsets (frame p) (by decide) (by decide) (by decide)
    have hcall : Memory.Apart (frame p + UInt64.ofNat 0x88) 8 (frame p + UInt64.ofNat 0) 8 :=
      Memory.apart_offsets (frame p) (by decide) (by decide) (by decide)
    have hspilled := (sameOutside_spilled p).value_eq (α := UInt64) hblock (by decide)
    have harriving :=
      (sameOutside_arriving context dispatcher p).value_eq (α := UInt64) hcall (by decide)
    rw [harriving, (reaches_calling h).2.1, hspilled, (reaches_framed h).2.1, hpushed]
  · refine (sameOutside_out h).value_eq ?_ (by decide)
    have hapart : Memory.Apart (frame p + UInt64.ofNat 0x90) 8 (frame p + UInt64.ofNat 0) 0x90 :=
      Memory.apart_offsets (frame p) (by decide) (by decide) (by decide)
    have hzero : frame p + UInt64.ofNat 0 = frame p := UInt64.add_zero _
    rwa [← rsp_eq, hzero] at hapart

/-- What the dispatcher has left of the stack of the caller. -/
theorem saved_returned {q : Processor} (h : Entered context dispatcher p)
    (hq : Returned context dispatcher p (arriving context dispatcher p) q) :
    q.memory.value UInt64 (p.reg .rsp - 8) = p.reg .rbp ∧
      q.memory.value UInt64 (p.reg .rsp) = p.memory.value UInt64 (p.reg .rsp) := by
  obtain ⟨hbase, hret⟩ := saved_arriving h
  have hplace : p.reg .rsp - 8 + UInt64.ofNat 8 = p.reg .rsp := UInt64.sub_add_cancel ..
  have hsaved := hq.saved
  rw [Memory.read_add _ _ 8 8, Memory.read_add _ _ 8 8, hplace] at hsaved
  obtain ⟨hsaved, hsaved'⟩ := List.append_inj hsaved (by simp)
  exact ⟨(congrArg LittleEndian.ofBytes hsaved).trans hbase,
    (congrArg LittleEndian.ofBytes hsaved').trans hret⟩

/-- The second half. -/
theorem home {q : Processor} (h : Entered context dispatcher p)
    (hq : Returned context dispatcher p (arriving context dispatcher p) q) :
    ∃ r, Home p (arriving context dispatcher p) q r := by
  obtain ⟨hbase, hret⟩ := saved_returned h hq
  have hnext : q.next = p.next + UInt64.ofNat 122 := by
    rw [hq.next, (outward h).ret, (reaches_calling h).2.2, UInt64.add_assoc]
    rfl
  have hrbp : q.reg .rbp = p.reg .rsp - 8 := hq.rbp
  have hslot : q.reg .rsp + 0x70 = (arriving context dispatcher p).reg .rcx := by
    rw [hq.rsp]
    show p.reg .rsp - 8 - 0x80 - 8 + 8 + 0x70 = p.reg .rsp - 8 - 0x80 + 0x70
    rw [UInt64.sub_add_cancel]
  -- What is behind the call: the epilogue, and the return.
  have hparts := (has_sysV_iff.mp hq.code).2.2.2.2.2
  have hcode := hparts.1
  rw [← hnext] at hcode
  obtain ⟨hrun, hmemory, hnext'⟩ := reaches_of_isQuiet hcode spelled_epilogue (by decide)
  have hback : (q.carry epilogue).memory.Has (q.carry epilogue).next back := by
    rw [hmemory, hnext', hnext, UInt64.add_assoc, ← UInt64.ofNat_add]
    exact hparts.2
  have htop : (q.carry epilogue).reg .rsp = p.reg .rsp := by
    show q.reg .rbp + 8 = _
    rw [hrbp, UInt64.sub_add_cancel]
  refine ⟨_, hrun.trans (reaches_of_spelled hback spelled_back), ?_, ?_, ?_, ?_, ?_, ?_⟩
  · show (q.carry epilogue).memory.value UInt64 ((q.carry epilogue).reg .rsp) = _
    rw [htop, hmemory, hret]
  · rw [← hslot]
    rfl
  · rw [← hslot]
    rfl
  · show (q.carry epilogue).reg .rsp + 8 = _
    rw [htop]
  · show q.memory.value UInt64 (q.reg .rbp) = _
    rw [hrbp, hbase]
  · exact hmemory

/-- A dispatcher that stores a word in the result slot and returns. -/
def answering (q : Processor) (word : UInt64) : Processor :=
  let (returning, behind) := { q with memory := q.memory.store (q.reg .rcx) word }.pop
  { behind with next := returning }

theorem Outward.returned_answering {called arrived : Processor} (h : Entered context dispatcher p)
    (hout : Outward context dispatcher p called arrived) (word : UInt64) :
    Returned context dispatcher p arrived (answering arrived word) := by
  -- The slot is where the frame says, so it is neither code nor one of the saved words.
  obtain ⟨hcalled, harrived⟩ := hout.rsp
  have hrcx : arrived.reg .rcx = called.reg .rcx := hout.regs _ (by decide)
  have hwithin := hout.handed.slot
  have hslot : called.reg .rcx =
      frame p + UInt64.ofNat (8 + (called.reg .rcx - called.reg .rsp).toNat) := by
    have htop : frame p + UInt64.ofNat 8 = called.reg .rsp := hcalled.symm
    rw [UInt64.ofNat_add, ← UInt64.add_assoc, htop, Memory.add_ofNat_toNat_sub]
  have hroom : (called.reg .rbp - called.reg .rsp).toNat = 0x80 := by
    rw [hout.handed.base, rsp_pushed, hcalled]
    exact Memory.toNat_offset_sub (frame p) (show 8 ≤ 0x88 by decide) (by decide)
  rw [hroom] at hwithin
  generalize (called.reg .rcx - called.reg .rsp).toNat = off at hslot hwithin
  have hstore : arrived.memory.SameOutside (frame p + UInt64.ofNat (8 + off)) 8
      (answering arrived word).memory := by
    rw [← hslot, ← hrcx]
    exact Memory.sameOutside_store _ _ word
  have hframe : arrived.memory.SameOutside (frame p) 0x90 (answering arrived word).memory :=
    hstore.widen (by omega) (by decide)
  have hfit : 8 + off + 8 < UInt64.size := Nat.lt_of_le_of_lt (by omega) (show 0x88 < _ by decide)
  refine ⟨?_, rfl, rfl, h.has (hout.below.trans hframe), ?_⟩
  · have hapart : Memory.Apart (frame p + UInt64.ofNat 0) 8 (frame p + UInt64.ofNat (8 + off)) 8 :=
      Memory.apart_offsets (frame p) (.inl (Nat.le_add_right 8 off)) (by decide) hfit
    have htop : arrived.reg .rsp = frame p + UInt64.ofNat 0 :=
      harrived.trans (UInt64.add_zero _).symm
    rw [← htop] at hapart
    exact hstore.value_eq (α := UInt64) hapart (by decide)
  · have hapart : Memory.Apart (frame p + UInt64.ofNat 0x88) 16
        (frame p + UInt64.ofNat (8 + off)) 8 :=
      Memory.apart_offsets (frame p) (.inr (by omega)) (by decide) hfit
    rw [← rsp_pushed] at hapart
    exact hstore.read_eq hapart (by decide)

/-- A stub hands the dispatcher what the slots of a classified call are numbered by, and
hands the caller what the dispatcher has left in the result slot. -/
theorem sysV_hands_over (h : Entered context dispatcher p) :
    ∃ called arrived, Outward context dispatcher p called arrived ∧
      ∀ q, Returned context dispatcher p arrived q → ∃ r, Home p arrived q r :=
  ⟨_, _, outward h, fun _ hq => home h hq⟩

/-- A stub that is entered with two arguments. -/
theorem sysV_hands_over_entering :
    let p := Native.entering 0x10000 [(.register 0, 5), (.register 6, 9)]
      (Memory.zero.write 0x10000 (sysV 0x10000 Native.dispatcher))
    ∃ called arrived r, Outward 0x10000 Native.dispatcher p called arrived ∧
      Home p arrived (answering arrived 7) r ∧ r.reg .rax = 7 := by
  intro p
  have hlength := AddressSpace.length_stub 0x10000 Native.dispatcher
  have hentered : Entered 0x10000 Native.dispatcher p := by
    refine ⟨?_, fun a ha => ?_⟩
    · have hsize : (sysV 0x10000 Native.dispatcher).length ≤ UInt64.size := by
        rw [hlength]
        decide
      have hstub := Memory.read_write Memory.zero 0x10000 _ hsize
      refine Memory.Has.of_sameOutside hstub
        (Memory.sameOutside_store _ Native.stackTop Native.caller) (fun a ha => ?_) hsize
      rw [hlength] at ha
      exact Memory.apart_of_distance (by decide) (by decide) ha
    · rw [hlength] at ha
      exact Memory.apart_of_distance (by decide) (by decide) ha
  obtain ⟨called, arrived, hout, hhome⟩ := sysV_hands_over hentered
  obtain ⟨r, hr⟩ := hhome _ (hout.returned_answering hentered 7)
  exact ⟨called, arrived, r, hout, hr, hr.rax.trans (Memory.value_store _ _ 7 (by decide))⟩

end Stub

end Reroute
