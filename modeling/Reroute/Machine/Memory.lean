import Reroute.Bytes
/-!
# Memory

Memory gives every 64-bit address a byte. Numbers are read from it and
written to it in their little-endian form, at any alignment and around the
end of the address space.

Code that other threads may run is changed two bytes at a time, by one
access that cannot be seen half done. An access whose two bytes lie in one
aligned word goes through that word (`Memory.pair`, `Memory.swapPair`); only
the pair that straddles two words is accessed on its own.
-/

namespace Reroute

/-- The bytes of an address space. -/
structure Memory where
  byte : UInt64 → UInt8

namespace Memory

/-- Memory that holds nothing but zeros. -/
def zero : Memory := ⟨fun _ => 0⟩

/-- The `count` bytes from an address on. -/
def read (m : Memory) (address : UInt64) (count : Nat) : Bytes :=
  (List.range count).map fun i => m.byte (address + UInt64.ofNat i)

/-- The memory with some bytes stored from an address on. -/
def write (m : Memory) (address : UInt64) (bytes : Bytes) : Memory where
  byte a :=
    match bytes[(a - address).toNat]? with
    | some stored => stored
    | none => m.byte a

/-- The value of a fixed-width type at an address. -/
def value (α : Type) [LittleEndian α] (m : Memory) (address : UInt64) : α :=
  LittleEndian.ofBytes (m.read address (LittleEndian.width α))

/-- The memory with a value stored at an address. -/
def store {α : Type} [LittleEndian α] (m : Memory) (address : UInt64) (value : α) : Memory :=
  m.write address (LittleEndian.toBytes value)

/-- The aligned word that holds both bytes of the pair at an address, and how
many bits lie below the pair in it. -/
def covering? (address : UInt64) : Option (UInt64 × UInt64) :=
  if address % 8 ≤ 6 then some (address - address % 8, address % 8 * 8) else none

/-- The pair of bytes at an address, lower byte first, in one access. -/
def pair (m : Memory) (address : UInt64) : UInt16 :=
  match covering? address with
  | some (base, shift) => (m.value UInt64 base >>> shift).toUInt16
  | none => m.value UInt16 address

/-- Replaces the pair of bytes at an address in one access and gives the pair
that was there. -/
def swapPair (m : Memory) (address : UInt64) (value : UInt16) : UInt16 × Memory :=
  match covering? address with
  | some (base, shift) =>
    let word := m.value UInt64 base
    let mask : UInt64 := 0xFFFF <<< shift
    ((word >>> shift).toUInt16,
      m.store base ((word &&& ~~~mask) ||| (value.toUInt64 <<< shift)))
  | none => (m.value UInt16 address, m.store address value)

end Memory

end Reroute
