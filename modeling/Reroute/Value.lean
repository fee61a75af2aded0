import Reroute.Error
/-!
# Boxed values

A call through a detour carries its arguments and result as boxed values.
Each element type has a native form in a 64-bit word; `Value.bits` gives the
word of a value as an element type and `Value.ofBits` reads a word back,
looking only at the bits of that type's width. Conversion between types goes
through the word, so it keeps what the two types have in common: integers
are taken modulo two to the width, floats are rounded, and handles keep all
their bits. A truth value is no integer, and a handle is none either.
-/

namespace Reroute

/-- A value of a call. Addresses and native integers have 64 bits. -/
inductive Value where
  | null
  | bool (value : Bool)
  /-- A UTF-16 unit. -/
  | char (value : UInt16)
  | i1 (value : Int8)
  | u1 (value : UInt8)
  | i2 (value : Int16)
  | u2 (value : UInt16)
  | i4 (value : Int32)
  | u4 (value : UInt32)
  | i8 (value : Int64)
  | u8 (value : UInt64)
  | r4 (value : Binary32)
  | r8 (value : Binary64)
  | int (value : Int64)
  | uint (value : UInt64)
  /-- A reference that the host handed out. -/
  | ref (handle : UInt64)
  | str (text : String)
  deriving Repr, DecidableEq, Inhabited

namespace Value

/-- What a type's slot holds before anything is stored. -/
def initial : ElementType → Value
  | .boolean => .bool false
  | .char => .char 0
  | .i1 => .i1 0
  | .u1 => .u1 0
  | .i2 => .i2 0
  | .u2 => .u2 0
  | .i4 => .i4 0
  | .u4 => .u4 0
  | .i8 => .i8 0
  | .u8 => .u8 0
  | .r4 => .r4 ⟨0⟩
  | .r8 => .r8 ⟨0⟩
  | .i => .int 0
  | .u => .uint 0
  | .void | .string | .ptr | .valueType | .classType | .fnPtr | .object | .szArray => .null

/-- The name of a value's own type. -/
def typeName : Value → String
  | .null => "null"
  | .bool _ => "bool"
  | .char _ => "char"
  | .i1 _ => "int8"
  | .u1 _ => "uint8"
  | .i2 _ => "int16"
  | .u2 _ => "uint16"
  | .i4 _ => "int32"
  | .u4 _ => "uint32"
  | .i8 _ => "int64"
  | .u8 _ => "uint64"
  | .r4 _ => "float32"
  | .r8 _ => "float64"
  | .int _ => "native int"
  | .uint _ => "native uint"
  | .ref _ => "ref"
  | .str _ => "string"

def isNull : Value → Bool
  | .null => true
  | _ => false

/-- The value as a signed 64-bit number, if it is one; the largest unsigned
numbers become negative. -/
def int64? : Value → Option Int64
  | .bool value => some (if value then 1 else 0)
  | .char value | .u2 value => some value.toUInt64.toInt64
  | .i1 value => some value.toInt64
  | .u1 value => some value.toUInt64.toInt64
  | .i2 value => some value.toInt64
  | .i4 value => some value.toInt64
  | .u4 value => some value.toUInt64.toInt64
  | .i8 value | .int value => some value
  | .u8 value | .uint value | .ref value => some value.toInt64
  | .null | .r4 _ | .r8 _ | .str _ => none

/-- The value as a binary64, if it is a float. -/
def float? : Value → Option Binary64
  | .r4 value => some value.widen
  | .r8 value => some value
  | _ => none

/-- The value as an integer word: only integers and characters have one. -/
def integer? : Value → Option UInt64
  | .bool _ | .ref _ => none
  | v => v.int64?.map Int64.toUInt64

/-- The value as the word of a handle. -/
def handle? : Value → Option UInt64
  | .null => some 0
  | .ref handle | .uint handle => some handle
  | .int handle => some handle.toUInt64
  | _ => none

/-- The word of a value in the native form of an element type, if it has one. -/
def bits? (v : Value) : ElementType → Option UInt64
  | .void => some 0
  | .r4 => v.float?.map fun x => x.narrow.bits.toUInt64
  | .r8 => v.float?.map Binary64.bits
  | .boolean =>
    match v with
    | .bool value => some (if value then 1 else 0)
    | _ => none
  | .i1 | .u1 => v.integer?.map (· &&& 0xFF)
  | .i2 | .u2 | .char => v.integer?.map (· &&& 0xFFFF)
  | .i4 | .u4 => v.integer?.map (· &&& 0xFFFFFFFF)
  | .i8 | .u8 | .i | .u => v.integer?
  | .string | .ptr | .valueType | .classType | .fnPtr | .object | .szArray => v.handle?

/-- The word of a value in the native form of an element type. -/
def bits (v : Value) (element : ElementType) : Except Error UInt64 :=
  match v.bits? element with
  | some word => .ok word
  | none => .error (.typeMismatch element v.typeName)

/-- The value of an element type that a word holds in its low bits. -/
def ofBits (element : ElementType) (word : UInt64) : Value :=
  match element with
  | .void => .null
  | .boolean => .bool (word.toUInt8 != 0)
  | .char => .char word.toUInt16
  | .i1 => .i1 word.toUInt8.toInt8
  | .u1 => .u1 word.toUInt8
  | .i2 => .i2 word.toUInt16.toInt16
  | .u2 => .u2 word.toUInt16
  | .i4 => .i4 word.toUInt32.toInt32
  | .u4 => .u4 word.toUInt32
  | .i8 => .i8 word.toInt64
  | .u8 => .u8 word
  | .r4 => .r4 ⟨word.toUInt32⟩
  | .r8 => .r8 ⟨word⟩
  | .i => .int word.toInt64
  | .u => .uint word
  | .string | .ptr | .valueType | .classType | .fnPtr | .object | .szArray =>
    if word = 0 then .null else .ref word

/-- The value as one of an element type. Strings are kept where a string,
an object or a class is asked for, although they have no native form. -/
def convert (v : Value) (element : ElementType) : Except Error Value :=
  match element, v with
  | .string, .str _ | .object, .str _ | .classType, .str _ => .ok v
  | element, v => return ofBits element (← v.bits element)

/-- A UTF-16 unit between apostrophes, as a number if it is half of a pair. -/
def charText (unit : UInt16) : String :=
  if 0xD800 ≤ unit ∧ unit ≤ 0xDFFF then
    "'\\u" ++ Text.hexPadded 4 unit.toNat ++ "'"
  else
    String.ofList ['\'', Char.ofNat unit.toNat, '\'']

def text : Value → String
  | .null => "null"
  | .bool value => Text.truth value
  | .char value => charText value
  | .i1 value => toString value.toInt
  | .u1 value => toString value.toNat
  | .i2 value => toString value.toInt
  | .u2 value => toString value.toNat
  | .i4 value => toString value.toInt
  | .u4 value => toString value.toNat
  | .i8 value => toString value.toInt
  | .u8 value => toString value.toNat
  | .r4 value => value.text
  | .r8 value => value.text
  | .int value => toString value.toInt
  | .uint value => toString value.toNat
  | .ref handle => "ref 0x" ++ Text.hex handle.toNat
  | .str text => Text.quote text

/-- The short name of a value's type. -/
def shortName : Value → String
  | .null => "Null"
  | .bool _ => "Bool"
  | .char _ => "Char"
  | .i1 _ => "I1"
  | .u1 _ => "U1"
  | .i2 _ => "I2"
  | .u2 _ => "U2"
  | .i4 _ => "I4"
  | .u4 _ => "U4"
  | .i8 _ => "I8"
  | .u8 _ => "U8"
  | .r4 _ => "R4"
  | .r8 _ => "R8"
  | .int _ => "I"
  | .uint _ => "U"
  | .ref _ => "Ref"
  | .str _ => "Str"

/-- The value under the short name of its type, a character or a reference as
its number. -/
def debugText (v : Value) : String :=
  match v with
  | .null => v.shortName
  | .char code => Text.applied v.shortName [toString code.toNat]
  | .ref handle => Text.applied v.shortName [toString handle.toNat]
  | _ => Text.applied v.shortName [v.text]

end Value

end Reroute
