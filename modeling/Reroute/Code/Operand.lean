import Reroute.Bytes
import Reroute.Entity.Token
import Reroute.Float.Shortest
import Reroute.Text.Record
/-!
# Operands of bytecode instructions

Every opcode declares a kind of operand, which fixes how many bytes follow
it; only a switch has a length of its own. Branch operands are distances
from the end of the instruction. Floats are bit patterns.
-/

namespace Reroute

/-- What an opcode takes behind its bytes. -/
inductive OperandKind where
  | none
  | shortBranchTarget
  | branchTarget
  | int8
  | uint8
  | uint16
  | int32
  | int64
  | float32
  | float64
  | string
  | field
  | method
  | type
  | tok
  | sig
  | switch
  deriving Repr, DecidableEq

namespace OperandKind

def all : List OperandKind :=
  [.none, .shortBranchTarget, .branchTarget, .int8, .uint8, .uint16, .int32, .int64, .float32,
   .float64, .string, .field, .method, .type, .tok, .sig, .switch]

/-- The bytes that an operand of a kind takes; a switch depends on its table. -/
def size? : OperandKind → Option Nat
  | .none => some 0
  | .shortBranchTarget | .int8 | .uint8 => some 1
  | .uint16 => some 2
  | .branchTarget | .int32 | .float32 | .string | .field | .method | .type | .tok | .sig => some 4
  | .int64 | .float64 => some 8
  | .switch => Option.none

/-- The kinds whose operand is a metadata token. -/
def isToken : OperandKind → Bool
  | .string | .field | .method | .type | .tok | .sig => true
  | _ => false

def name : OperandKind → String
  | .none => "None"
  | .shortBranchTarget => "ShortBranchTarget"
  | .branchTarget => "BranchTarget"
  | .int8 => "Int8"
  | .uint8 => "UInt8"
  | .uint16 => "UInt16"
  | .int32 => "Int32"
  | .int64 => "Int64"
  | .float32 => "Float32"
  | .float64 => "Float64"
  | .string => "String"
  | .field => "Field"
  | .method => "Method"
  | .type => "Type"
  | .tok => "Tok"
  | .sig => "Sig"
  | .switch => "Switch"

end OperandKind

/-- A number inside an instruction. -/
inductive Immediate where
  | int8 (value : Int8)
  | uint8 (value : UInt8)
  | uint16 (value : UInt16)
  | int32 (value : Int32)
  | int64 (value : Int64)
  | float32 (value : Binary32)
  | float64 (value : Binary64)
  deriving Repr, DecidableEq

namespace Immediate

/-- The number in a 64-bit word: signed numbers extend their sign, floats
keep their pattern. -/
def word : Immediate → UInt64
  | .int8 value => value.toInt64.toUInt64
  | .uint8 value => value.toUInt64
  | .uint16 value => value.toUInt64
  | .int32 value => value.toInt64.toUInt64
  | .int64 value => value.toUInt64
  | .float32 value => value.bits.toUInt64
  | .float64 value => value.bits

def text : Immediate → String
  | .int8 value => toString value.toInt
  | .uint8 value => toString value.toNat
  | .uint16 value => toString value.toNat
  | .int32 value => toString value.toInt
  | .int64 value => toString value.toInt
  | .float32 value => value.text
  | .float64 value => value.text

/-- The name of an immediate's type. -/
def typeName : Immediate → String
  | .int8 _ => "Int8"
  | .uint8 _ => "UInt8"
  | .uint16 _ => "UInt16"
  | .int32 _ => "Int32"
  | .int64 _ => "Int64"
  | .float32 _ => "Float32"
  | .float64 _ => "Float64"

def debugText (i : Immediate) : String := Text.applied i.typeName [i.text]

end Immediate

/-- The operand of an instruction. -/
inductive Operand where
  | none
  | immediate (value : Immediate)
  /-- A branch over at most 127 bytes. -/
  | shortTarget (delta : Int8)
  | target (delta : Int32)
  | token (value : Token)
  /-- The distances of a jump table. -/
  | switch (deltas : List Int32)
  deriving Repr, DecidableEq

namespace Operand

/-- The distances that an operand branches over. -/
def deltas : Operand → List Int
  | .shortTarget delta => [delta.toInt]
  | .target delta => [delta.toInt]
  | .switch deltas => deltas.map Int32.toInt
  | _ => []

def token? : Operand → Option Token
  | .token t => some t
  | _ => Option.none

def debugText : Operand → String
  | .none => "None"
  | .immediate value => Text.applied "Immediate" [value.debugText]
  | .shortTarget delta => Text.applied "ShortTarget" [toString delta.toInt]
  | .target delta => Text.applied "Target" [toString delta.toInt]
  | .token t => Text.applied "Token" [t.debugText]
  | .switch deltas =>
    Text.applied "Switch" [Text.listed (deltas.map fun delta => toString delta.toInt)]

end Operand

end Reroute
