import Reroute.Patch.Jump
import Reroute.Proofs.Fetching
import Reroute.Proofs.Run
/-!
# Where jumps lead

A jump on x86 is told by a distance, which the processor takes as a signed number and
adds to the end of the jump, modulo the size of the address space
(`Redirector.LeadsOver`). A jump on x86-64 is three instructions, and what they do is
what the processor makes of their bytes: control is at the target, and of all that a
caller may rely on nothing has changed (`Redirector.Transfers`).

The word that the second instruction pushes lies below the stack. The code of the jump
may lie anywhere, so its third instruction must only not lie in that word.
-/

namespace Reroute

namespace Redirector

open Processor

/-! ## Distances -/

/-- The bytes are a jump from one 32-bit address to another one: over a signed distance,
from the end of the jump. -/
def LeadsOver (origin : UInt64) (jump : Bytes) (target : UInt64) : Prop :=
  ∃ distance : Bytes, jump = 0xE9 :: distance ∧ distance.length = 4 ∧
    (origin.toNat + 5 + (Bytes.toNat distance : Int).bmod UInt32.size) % UInt32.size = target.toNat

theorem narrow_eq_ok_iff {address : UInt64} {short : UInt32} :
    narrow address = .ok short ↔ short.toNat = address.toNat := by
  have hshort := short.toNat_lt
  have hcut : address.toUInt32.toNat = address.toNat % UInt32.size := address.toNat_toUInt32
  unfold narrow
  split
  · rename_i hfits
    rw [Nat.mod_eq_of_lt hfits] at hcut
    rw [Except.ok.injEq, ← UInt32.toNat_inj, hcut]
    exact eq_comm
  · rename_i hwide
    constructor
    · intro h
      cases h
    · intro h
      exact absurd (h ▸ hshort) hwide

theorem exists_narrow_iff {address : UInt64} :
    (∃ short, narrow address = .ok short) ↔ address.toNat < UInt32.size := by
  constructor
  · rintro ⟨short, h⟩
    rw [← narrow_eq_ok_iff.mp h]
    exact short.toNat_lt
  · intro h
    exact ⟨address.toUInt32, if_pos h⟩

theorem jump32_eq_ok_iff {origin target : UInt64} {jump : Bytes} :
    jump32 origin target = .ok jump ↔ ∃ start stop : UInt32, start.toNat = origin.toNat ∧
      stop.toNat = target.toNat ∧ jump = 0xE9 :: LittleEndian.toBytes (stop - (start + 5)) := by
  simp only [jump32, answer_bind_eq_ok_iff, narrow_eq_ok_iff, answer_pure_eq_ok_iff]
  constructor
  · rintro ⟨start, hstart, stop, hstop, rfl⟩
    exact ⟨start, stop, hstart, hstop, rfl⟩
  · rintro ⟨start, stop, hstart, hstop, rfl⟩
    exact ⟨start, hstart, stop, hstop, rfl⟩

theorem jump32_eq_error {origin target : UInt64} {e : Error} (h : jump32 origin target = .error e) :
    ∃ wide, (wide = origin ∨ wide = target ∧ origin.toNat < UInt32.size) ∧
      UInt32.size ≤ wide.toNat ∧
      e = .other ("0x" ++ Text.hex wide.toNat ++ " is outside the 32-bit address space") := by
  unfold jump32 narrow at h
  split at h
  · rename_i horigin
    split at h
    · cases h
    · rename_i htarget
      cases h
      exact ⟨target, .inr ⟨rfl, horigin⟩, Nat.le_of_not_lt htarget, rfl⟩
  · rename_i horigin
    cases h
    exact ⟨origin, .inl rfl, Nat.le_of_not_lt horigin, rfl⟩

/-- A word keeps the difference of two addresses modulo its size, which is all that the
end of the jump takes it for. -/
theorem leadsOver_difference {origin target : UInt64} {start stop : UInt32}
    (hstart : start.toNat = origin.toNat) (hstop : stop.toNat = target.toNat) :
    LeadsOver origin (0xE9 :: LittleEndian.toBytes (stop - (start + 5))) target := by
  refine ⟨LittleEndian.toBytes (stop - (start + 5)), rfl, LittleEndian.length_toBytes _, ?_⟩
  have hnumber : Bytes.toNat (LittleEndian.toBytes (stop - (start + 5))) =
      (stop - (start + 5)).toNat :=
    (Bytes.toNat_ofNat 4 _).trans (Nat.mod_eq_of_lt (stop - (start + 5)).toNat_lt)
  have hfive : (5 : UInt32).toNat = 5 := rfl
  have hlt := stop.toNat_lt
  rw [hnumber, Int.add_emod, Int.bmod_emod, ← Int.add_emod, ← hstart, ← hstop, UInt32.toNat_sub,
    UInt32.toNat_add, hfive]
  simp only [UInt32.size]
  omega

/-! ## Three instructions -/

/-- From the start of a jump, control is at the target three instructions later. -/
structure Transfers (p : Processor) (target : UInt64) (q : Processor) : Prop where
  run : (p.step.bind step).bind step = some q
  next : q.next = target
  stack : q.reg .rsp = p.reg .rsp
  regs : ∀ r, r ≠ .rax → q.reg r = p.reg r
  float : q.float = p.float
  memory : p.memory.SameOutside (p.reg .rsp - 8) 8 q.memory

/-- The word that a jump pushes leaves its last instruction as it is. -/
def KeepsReturn (p : Processor) (target : UInt64) : Prop :=
  (p.memory.store (p.reg .rsp - 8) target).byte (p.next + 11) = 0xC3

variable {p : Processor} {m : Memory} {target a : UInt64}

theorem has_jump64_iff : m.Has a (jump64 target) ↔
    m.Has a ([0x48, 0xB8] ++ LittleEndian.toBytes target) ∧ m.Has (a + 10) [0x50] ∧
      m.Has (a + 11) [0xC3] := by
  have hsplit : jump64 target =
      ([0x48, 0xB8] ++ LittleEndian.toBytes target) ++ ([0x50] ++ [0xC3]) := rfl
  have hlength : ([0x48, 0xB8] ++ LittleEndian.toBytes target).length = 10 := by
    rw [List.length_append, LittleEndian.length_toBytes]
    rfl
  have hsum : a + UInt64.ofNat 10 + UInt64.ofNat 1 = a + 11 := by
    rw [UInt64.add_assoc]
    rfl
  have hlast : m.Has (a + UInt64.ofNat 10) ([0x50] ++ [0xC3]) ↔
      m.Has (a + UInt64.ofNat 10) [0x50] ∧ m.Has (a + UInt64.ofNat 10 + UInt64.ofNat 1) [0xC3] :=
    Memory.has_append_iff
  rw [hsplit, Memory.has_append_iff, hlength, hlast, hsum]
  rfl

theorem has_singleton_iff {byte : UInt8} : m.Has a [byte] ↔ m.byte a = byte := by
  have hread : m.read a 1 = [m.byte a] := congrArg (fun a => [m.byte a]) (UInt64.add_zero a)
  rw [Memory.Has, List.length_singleton, hread, List.singleton_inj]

theorem keepsReturn_of_outside (hcode : p.memory.Has p.next (jump64 target))
    (h : 8 ≤ (p.next + 11 - (p.reg .rsp - 8)).toNat) : KeepsReturn p target := by
  have hreturn := has_singleton_iff.mp (has_jump64_iff.mp hcode).2.2
  exact (Memory.sameOutside_store p.memory (p.reg .rsp - 8) target _ h).trans hreturn

/-- The processor with the target in a register, and with it on the stack. -/
def loaded (p : Processor) (target : UInt64) : Processor := p.advance (.constant .rax target) 10

def pushed (p : Processor) (target : UInt64) : Processor := (loaded p target).advance (.push .rax) 1

def landed (p : Processor) (target : UInt64) : Processor := (pushed p target).advance .ret 1

theorem step_loaded (h : p.memory.Has p.next (jump64 target)) :
    p.step = some (loaded p target) := by
  have hspelled : Instr.Spelled (.constant .rax target)
      ([0x48, 0xB8] ++ LittleEndian.toBytes target) :=
    Instr.spelled_constant (by decide) target
  have hlength : ([0x48, 0xB8] ++ LittleEndian.toBytes target).length = 10 := by
    rw [List.length_append, LittleEndian.length_toBytes]
    rfl
  rw [step_of_spelled (has_jump64_iff.mp h).1 hspelled, hlength]
  rfl

theorem step_pushed (h : p.memory.Has p.next (jump64 target)) :
    (loaded p target).step = some (pushed p target) := by
  have hcode : (loaded p target).memory.Has (loaded p target).next [0x50] :=
    (has_jump64_iff.mp h).2.1
  exact step_of_spelled hcode (show Instr.Spelled (.push .rax) [0x50] by decide)

theorem next_pushed : (pushed p target).next = p.next + 11 := by
  show p.next + UInt64.ofNat 10 + UInt64.ofNat 1 = p.next + 11
  rw [UInt64.add_assoc]
  rfl

theorem step_landed (h : KeepsReturn p target) :
    (pushed p target).step = some (landed p target) := by
  have hcode : (pushed p target).memory.Has (pushed p target).next [0xC3] := by
    rw [next_pushed]
    exact has_singleton_iff.mpr h
  exact step_of_spelled hcode (show Instr.Spelled .ret [0xC3] by decide)

theorem transfers_landed (hcode : p.memory.Has p.next (jump64 target)) (h : KeepsReturn p target) :
    Transfers p target (landed p target) where
  run := by
    rw [step_loaded hcode, Option.bind_some, step_pushed hcode, Option.bind_some, step_landed h]
  -- the word on top of the stack is the one that has just been pushed
  next := Memory.value_store p.memory (p.reg .rsp - 8) target (by decide)
  stack := UInt64.sub_add_cancel (p.reg .rsp) 8
  regs r hr := by
    by_cases hstack : r = .rsp
    · rw [hstack]
      exact UInt64.sub_add_cancel (p.reg .rsp) 8
    · simp [landed, pushed, loaded, advance, execute, push, pop, Processor.set, hr, hstack]
  float := rfl
  memory := Memory.sameOutside_store p.memory (p.reg .rsp - 8) target

/-! ## Both encoders -/

/-- What a jump on x86 comes to. -/
structure Jumps32 (origin target : UInt64) : Prop where
  succeeds_iff : (∃ jump, x86.jump origin target = .ok jump) ↔
    origin.toNat < UInt32.size ∧ target.toNat < UInt32.size
  refused : ∀ e, x86.jump origin target = .error e →
    ∃ wide, (wide = origin ∨ wide = target ∧ origin.toNat < UInt32.size) ∧
      UInt32.size ≤ wide.toNat ∧
      e = .other ("0x" ++ Text.hex wide.toNat ++ " is outside the 32-bit address space")
  length : ∀ jump, x86.jump origin target = .ok jump → jump.length = x86.jumpSize
  leads : ∀ jump, x86.jump origin target = .ok jump → LeadsOver origin jump target

/-- What the bytes of a jump on x86-64 come to. -/
structure Jumps64 (target : UInt64) (jump : Bytes) : Prop where
  /-- They are the same wherever the jump is to be placed. -/
  encoded : ∀ origin, x64.jump origin target = .ok jump
  length : jump.length = x64.jumpSize
  kept : ∀ p : Processor, p.memory.Has p.next jump →
    8 ≤ (p.next + 11 - (p.reg .rsp - 8)).toNat → KeepsReturn p target
  transfers : ∀ p : Processor, p.memory.Has p.next jump → KeepsReturn p target →
    ∃ q, Transfers p target q

theorem jumps32 (origin target : UInt64) : Jumps32 origin target := by
  constructor
  case succeeds_iff =>
    rw [← exists_narrow_iff, ← exists_narrow_iff]
    constructor
    · rintro ⟨jump, h⟩
      obtain ⟨start, stop, hstart, hstop, -⟩ := jump32_eq_ok_iff.mp h
      exact ⟨⟨start, narrow_eq_ok_iff.mpr hstart⟩, ⟨stop, narrow_eq_ok_iff.mpr hstop⟩⟩
    · rintro ⟨⟨start, hstart⟩, ⟨stop, hstop⟩⟩
      exact ⟨_, jump32_eq_ok_iff.mpr ⟨start, stop, narrow_eq_ok_iff.mp hstart,
        narrow_eq_ok_iff.mp hstop, rfl⟩⟩
  case refused => exact fun e h => jump32_eq_error h
  case length =>
    intro jump h
    obtain ⟨start, stop, -, -, rfl⟩ := jump32_eq_ok_iff.mp h
    rw [List.length_cons, LittleEndian.length_toBytes]
    rfl
  case leads =>
    intro jump h
    obtain ⟨start, stop, hstart, hstop, rfl⟩ := jump32_eq_ok_iff.mp h
    exact leadsOver_difference hstart hstop

theorem jumps64 (target : UInt64) : Jumps64 target (jump64 target) := by
  constructor
  case encoded => exact fun _ => rfl
  case length => simp [jump64, x64, LittleEndian.width]
  case kept => exact fun p hcode h => keepsReturn_of_outside hcode h
  case transfers => exact fun p hcode h => ⟨landed p target, transfers_landed hcode h⟩

/-- **Jumps lead to their targets**: on x86 from every address to every other one, forwards
and backwards and around the end of the address space, and on x86-64 from anywhere to
anywhere, with the stack as it was. -/
theorem both_jumps_reach (origin target : UInt64) :
    Jumps32 origin target ∧ Jumps64 target (jump64 target) :=
  ⟨jumps32 origin target, jumps64 target⟩

/-- A jump around the end of the address space. -/
example : x86.jump 0xFFFFFFFE 0x10 = .ok [0xE9, 0x0D, 0x00, 0x00, 0x00] := rfl

end Redirector

end Reroute
