/-!
# Bytes and little-endian numbers

Every binary format of the library is little-endian. This file fixes the
byte string type, reads a byte string as a numeral in base 256 with the
lowest digit first (`Bytes.toNat`), and writes a numeral back
(`Bytes.ofNat`). The two are inverse on strings of a fixed length and on
numbers below the matching power of 256, which is all that the class
`LittleEndian` of fixed-width types asks for.

Floats are kept as bit patterns (`Binary32`, `Binary64`), so a NaN
payload survives every read and write.
-/

namespace Reroute

/-- A string of bytes. -/
abbrev Bytes := List UInt8

namespace Bytes

/-- The number that the bytes spell, lowest byte first. -/
def toNat : Bytes → Nat
  | [] => 0
  | b :: rest => b.toNat + 256 * toNat rest

/-- The `width` lowest base-256 digits of a number, lowest first. -/
def ofNat : (width : Nat) → Nat → Bytes
  | 0, _ => []
  | width + 1, n => UInt8.ofNat n :: ofNat width (n / 256)

@[simp] theorem length_ofNat (width n : Nat) : (ofNat width n).length = width := by
  induction width generalizing n with
  | zero => rfl
  | succ width ih => simp [ofNat, ih]

/-- How many byte strings of a length there are. -/
def count (width : Nat) : Nat := Nat.pow 256 width

theorem count_succ (width : Nat) : count (width + 1) = 256 * count width := Nat.mul_comm _ _

theorem toNat_lt (bytes : Bytes) : toNat bytes < count bytes.length := by
  induction bytes with
  | nil => exact Nat.zero_lt_one
  | cons b rest ih =>
      have hb := b.toNat_lt
      rw [toNat, List.length_cons, count_succ]
      omega

theorem toNat_ofNat (width n : Nat) : toNat (ofNat width n) = n % count width := by
  induction width generalizing n with
  | zero => exact (Nat.mod_one n).symm
  | succ width ih =>
      rw [ofNat, toNat, ih, count_succ, Nat.mod_mul]
      simp

theorem ofNat_toNat (bytes : Bytes) : ofNat bytes.length (toNat bytes) = bytes := by
  induction bytes with
  | nil => rfl
  | cons b rest ih =>
      have hb := b.toNat_lt
      have low : UInt8.ofNat (b.toNat + 256 * toNat rest) = b := by
        apply UInt8.toNat.inj
        simp only [UInt8.toNat_ofNat']
        omega
      have high : (b.toNat + 256 * toNat rest) / 256 = toNat rest := by omega
      simp [ofNat, toNat, low, high, ih]

end Bytes

/-- A type of numbers with a little-endian form of a fixed width. The form
and the number determine each other. -/
class LittleEndian (α : Type) where
  width : Nat
  toBytes : α → Bytes
  ofBytes : Bytes → α
  length_toBytes : ∀ value, (toBytes value).length = width
  ofBytes_toBytes : ∀ value, ofBytes (toBytes value) = value
  toBytes_ofBytes : ∀ bytes, bytes.length = width → toBytes (ofBytes bytes) = bytes

namespace LittleEndian

attribute [simp] length_toBytes ofBytes_toBytes

/-- The form of a type that is carried by the numbers below a power of 256. -/
abbrev ofCarrier {α : Type} (width : Nat) (toNat : α → Nat) (ofNat : Nat → α)
    (toNat_lt : ∀ value, toNat value < Bytes.count width)
    (ofNat_toNat : ∀ value, ofNat (toNat value) = value)
    (toNat_ofNat : ∀ n, n < Bytes.count width → toNat (ofNat n) = n) : LittleEndian α where
  width := width
  toBytes value := Bytes.ofNat width (toNat value)
  ofBytes bytes := ofNat (Bytes.toNat bytes)
  length_toBytes value := by simp
  ofBytes_toBytes value := by
    rw [Bytes.toNat_ofNat, Nat.mod_eq_of_lt (toNat_lt value), ofNat_toNat]
  toBytes_ofBytes bytes hlen := by
    have hlt := Bytes.toNat_lt bytes
    rw [hlen] at hlt
    rw [toNat_ofNat _ hlt, ← hlen, Bytes.ofNat_toNat]

end LittleEndian

/-- An IEEE 754 binary32 bit pattern. -/
structure Binary32 where
  bits : UInt32
  deriving Repr, DecidableEq, Inhabited

/-- An IEEE 754 binary64 bit pattern. -/
structure Binary64 where
  bits : UInt64
  deriving Repr, DecidableEq, Inhabited

instance : LittleEndian UInt8 :=
  .ofCarrier 1 UInt8.toNat UInt8.ofNat (fun v => v.toNat_lt) (fun v => by simp)
    (fun _ h => UInt8.toNat_ofNat_of_lt' h)

instance : LittleEndian UInt16 :=
  .ofCarrier 2 UInt16.toNat UInt16.ofNat (fun v => v.toNat_lt) (fun v => by simp)
    (fun _ h => UInt16.toNat_ofNat_of_lt' h)

instance : LittleEndian UInt32 :=
  .ofCarrier 4 UInt32.toNat UInt32.ofNat (fun v => v.toNat_lt) (fun v => by simp)
    (fun _ h => UInt32.toNat_ofNat_of_lt' h)

instance : LittleEndian UInt64 :=
  .ofCarrier 8 UInt64.toNat UInt64.ofNat (fun v => v.toNat_lt) (fun v => by simp)
    (fun _ h => UInt64.toNat_ofNat_of_lt' h)

/-- A type whose values are those of a type that already has a form. -/
abbrev LittleEndian.ofEquiv {α β : Type} [LittleEndian β] (there : α → β) (back : β → α)
    (back_there : ∀ a, back (there a) = a) (there_back : ∀ b, there (back b) = b) :
    LittleEndian α where
  width := LittleEndian.width β
  toBytes value := LittleEndian.toBytes (there value)
  ofBytes bytes := back (LittleEndian.ofBytes bytes)
  length_toBytes value := LittleEndian.length_toBytes (there value)
  ofBytes_toBytes value := by simp [back_there]
  toBytes_ofBytes bytes hlen := by rw [there_back, LittleEndian.toBytes_ofBytes bytes hlen]

instance : LittleEndian Int8 :=
  .ofEquiv Int8.toUInt8 UInt8.toInt8 (fun _ => rfl) (fun _ => rfl)

instance : LittleEndian Int16 :=
  .ofEquiv Int16.toUInt16 UInt16.toInt16 (fun _ => rfl) (fun _ => rfl)

instance : LittleEndian Int32 :=
  .ofEquiv Int32.toUInt32 UInt32.toInt32 (fun _ => rfl) (fun _ => rfl)

instance : LittleEndian Int64 :=
  .ofEquiv Int64.toUInt64 UInt64.toInt64 (fun _ => rfl) (fun _ => rfl)

instance : LittleEndian Binary32 :=
  .ofEquiv Binary32.bits Binary32.mk (fun _ => rfl) (fun _ => rfl)

instance : LittleEndian Binary64 :=
  .ofEquiv Binary64.bits Binary64.mk (fun _ => rfl) (fun _ => rfl)

namespace Bytes

/-- A buffer with a value appended in its little-endian form. -/
def emit {α : Type} [LittleEndian α] (buffer : Bytes) (value : α) : Bytes :=
  buffer ++ LittleEndian.toBytes value

/-- The value of a fixed-width type at an offset, and the offset behind
it. The end is computed in 64-bit words, so an offset whose end does not
fit in a word is out of bounds like one past the end. -/
def readAt? (α : Type) [LittleEndian α] (bytes : Bytes) (offset : UInt64) : Option (α × UInt64) :=
  let stop := offset.toNat + LittleEndian.width α
  if stop < UInt64.size ∧ stop ≤ bytes.length then
    some (LittleEndian.ofBytes ((bytes.drop offset.toNat).take (LittleEndian.width α)),
      UInt64.ofNat stop)
  else
    none

/-- The bytes with a value written over those at an offset, and the offset
behind it; nothing is written unless all of the value fits. -/
def writeAt? {α : Type} [LittleEndian α] (bytes : Bytes) (offset : UInt64) (value : α) :
    Option (Bytes × UInt64) :=
  let stop := offset.toNat + LittleEndian.width α
  if stop < UInt64.size ∧ stop ≤ bytes.length then
    some (bytes.take offset.toNat ++ LittleEndian.toBytes value ++ bytes.drop stop,
      UInt64.ofNat stop)
  else
    none

end Bytes

end Reroute
