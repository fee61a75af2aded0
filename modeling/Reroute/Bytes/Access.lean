import Reroute.Bytes.Cursor
import Reroute.Machine.Word
/-!
# Access to a buffer

Buffers keep values of ten types. An access to one of them changes the buffer and
the offset in place, so what a failed one leaves behind is part of what it does:
an access compares first, and then stores its bytes one after the other. Where it
ends is a sum of words, which may not be one.
-/

namespace Reroute

/-- The types whose values have a form of fixed width. -/
inductive Primitive where
  | u8 | i8 | u16 | i16 | u32 | i32 | u64 | i64
  /-- Floats, which are kept by their bits. -/
  | f32 | f64
  deriving Repr, DecidableEq

namespace Primitive

/-- The values of a type. -/
abbrev Carrier : Primitive → Type
  | .u8 => UInt8
  | .i8 => Int8
  | .u16 => UInt16
  | .i16 => Int16
  | .u32 => UInt32
  | .i32 => Int32
  | .u64 => UInt64
  | .i64 => Int64
  | .f32 => Binary32
  | .f64 => Binary64

instance : (t : Primitive) → LittleEndian t.Carrier
  | .u8 => inferInstanceAs (LittleEndian UInt8)
  | .i8 => inferInstanceAs (LittleEndian Int8)
  | .u16 => inferInstanceAs (LittleEndian UInt16)
  | .i16 => inferInstanceAs (LittleEndian Int16)
  | .u32 => inferInstanceAs (LittleEndian UInt32)
  | .i32 => inferInstanceAs (LittleEndian Int32)
  | .u64 => inferInstanceAs (LittleEndian UInt64)
  | .i64 => inferInstanceAs (LittleEndian Int64)
  | .f32 => inferInstanceAs (LittleEndian Binary32)
  | .f64 => inferInstanceAs (LittleEndian Binary64)

/-- How many bytes a value takes. -/
def width : Primitive → Nat
  | .u8 | .i8 => 1
  | .u16 | .i16 => 2
  | .u32 | .i32 | .f32 => 4
  | .u64 | .i64 | .f64 => 8

/-- The bits of a value as a number, a negative integer's in two's complement. -/
def pattern : (t : Primitive) → t.Carrier → Nat
  | .u8, v => UInt8.toNat v
  | .i8, v => (Int8.toUInt8 v).toNat
  | .u16, v => UInt16.toNat v
  | .i16, v => (Int16.toUInt16 v).toNat
  | .u32, v => UInt32.toNat v
  | .i32, v => (Int32.toUInt32 v).toNat
  | .u64, v => UInt64.toNat v
  | .i64, v => (Int64.toUInt64 v).toNat
  | .f32, v => (Binary32.bits v).toNat
  | .f64, v => (Binary64.bits v).toNat

end Primitive

/-- A buffer, and the offset of the next access to it. -/
@[ext] structure Buffer where
  bytes : Bytes
  offset : UInt64
  deriving Repr, DecidableEq

/-- The bytes with others stored over them from a place on, one after the other. -/
def Bytes.storeFrom (bytes : Bytes) (place : Nat) : Bytes → Bytes
  | [] => bytes
  | byte :: rest => storeFrom (bytes.set place byte) (place + 1) rest

/-- A computation over a buffer that may fail. -/
abbrev Access := ExceptT Error (StateM Buffer)

namespace Access

/-- The offset behind the next `width` bytes, if there are so many. -/
def stop (width : Nat) : Access UInt64 := fun b =>
  match Word.add? b.offset (UInt64.ofNat width) with
  | some stop => if b.bytes.length < stop.toNat then (.error .outOfBounds, b) else (.ok stop, b)
  | none => (.error .outOfBounds, b)

/-- The bytes in front of an offset. -/
def upTo (stop : UInt64) : Access Bytes := fun b =>
  (.ok ((b.bytes.drop b.offset.toNat).take (stop.toNat - b.offset.toNat)), b)

def store (bytes : Bytes) : Access Unit := fun b =>
  (.ok (), { b with bytes := b.bytes.storeFrom b.offset.toNat bytes })

def moveTo (offset : UInt64) : Access Unit := fun b => (.ok (), { b with offset })

/-- Reads a value at the offset and moves behind it. -/
def read (α : Type) [LittleEndian α] : Access α := do
  let stop ← stop (LittleEndian.width α)
  let taken ← upTo stop
  moveTo stop
  return LittleEndian.ofBytes taken

/-- Writes a value at the offset and moves behind it. -/
def write {α : Type} [LittleEndian α] (value : α) : Access Unit := do
  let stop ← stop (LittleEndian.width α)
  store (LittleEndian.toBytes value)
  moveTo stop

end Access

end Reroute
