import Reroute.Error
import Reroute.Machine.Memory
/-!
# Jumps

A redirector knows one architecture: the bytes of a jump to an address, and
where an entry point leads that is itself an indirect jump. On x86 a jump
holds the distance modulo two to the thirty-two, so both ends must lie in
the first four gigabytes; on x86-64 it pushes the full address and returns
to it, and so works from anywhere.
-/

namespace Reroute

/-- How one architecture jumps. -/
structure Redirector where
  architecture : String
  jumpSize : Nat
  /-- The bytes of a jump from one address to another. -/
  jump : (origin target : UInt64) → Except Error Bytes
  /-- Where an entry point leads: behind an indirect jump, or to itself. -/
  resolve : Memory → UInt64 → UInt64

namespace Redirector

/-- The first two bytes of a jump through a slot in memory. -/
def indirectJump : UInt16 := 0x25FF

/-- An address as a 32-bit number. -/
def narrow (address : UInt64) : Except Error UInt32 :=
  if address.toNat < UInt32.size then .ok address.toUInt32
  else .error (.other ("0x" ++ Text.hex address.toNat ++ " is outside the 32-bit address space"))

/-- A jump over a distance in five bytes. -/
def jump32 (origin target : UInt64) : Except Error Bytes := do
  let origin ← narrow origin
  let target ← narrow target
  return 0xE9 :: LittleEndian.toBytes (target - (origin + 5))

/-- The absolute jump in twelve bytes: load the address, push it, return to it. -/
def jump64 (target : UInt64) : Bytes :=
  [0x48, 0xB8] ++ LittleEndian.toBytes target ++ [0x50, 0xC3]

/-- The redirector of x86. Its indirect jumps name their slot by address. -/
def x86 : Redirector where
  architecture := "x86"
  jumpSize := 5
  jump := jump32
  resolve m target :=
    if m.pair target = indirectJump then
      (m.value UInt32 (m.value UInt32 (target + 2)).toUInt64).toUInt64
    else target

/-- The redirector of x86-64. Its indirect jumps name their slot by the
distance from the end of their six bytes. -/
def x64 : Redirector where
  architecture := "x86_64"
  jumpSize := 12
  jump := fun _ target => .ok (jump64 target)
  resolve m target :=
    if m.pair target = indirectJump then
      let displacement := m.value Int32 (target + 2)
      m.value UInt64 (target + 6 + displacement.toInt64.toUInt64)
    else target

/-- An entry point that jumps through a slot ten bytes behind its jump, and the
slot, which holds where it leads, in all thirty-two bytes. -/
def indirectEntry (target : UInt64) : Bytes :=
  [0xFF, 0x25, 0x0A, 0x00, 0x00, 0x00] ++ List.replicate 10 0xCC ++
    LittleEndian.toBytes target ++ List.replicate 8 0xCC

/-- A redirector whose jump is `count` breakpoints and which takes every entry
point as it is. -/
def breakpoints (architecture : String) (count : Nat) : Redirector where
  architecture := architecture
  jumpSize := count
  jump := fun _ _ => .ok (List.replicate count 0xCC)
  resolve _ target := target

end Redirector

end Reroute
