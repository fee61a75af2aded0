import Reroute.Text.Hex
/-!
# Metadata tokens

A token names an entity inside one scope: its top byte is a table and its
lower three bytes are a row in that table. The same number in two scopes
names unrelated entities. The token zero names nothing.
-/

namespace Reroute

/-- The tables that tokens of method bodies point into. -/
inductive Table where
  | typeRef
  | typeDef
  | field
  | methodDef
  | memberRef
  | standAloneSig
  | typeSpec
  | methodSpec
  | userString
  deriving Repr, DecidableEq

namespace Table

/-- The byte that a token carries for a table. -/
def code : Table → UInt8
  | .typeRef => 0x01
  | .typeDef => 0x02
  | .field => 0x04
  | .methodDef => 0x06
  | .memberRef => 0x0A
  | .standAloneSig => 0x11
  | .typeSpec => 0x1B
  | .methodSpec => 0x2B
  | .userString => 0x70

def all : List Table :=
  [.typeRef, .typeDef, .field, .methodDef, .memberRef, .standAloneSig, .typeSpec, .methodSpec,
   .userString]

/-- The table with a given byte. -/
def ofCode? (byte : UInt8) : Option Table := all.find? fun table => table.code == byte

/-- The name of a table. -/
def name : Table → String
  | .typeRef => "TypeRef"
  | .typeDef => "TypeDef"
  | .field => "Field"
  | .methodDef => "MethodDef"
  | .memberRef => "MemberRef"
  | .standAloneSig => "StandAloneSig"
  | .typeSpec => "TypeSpec"
  | .methodSpec => "MethodSpec"
  | .userString => "UserString"

end Table

/-- A reference to an entity of some scope. -/
structure Token where
  value : UInt32
  deriving Repr, DecidableEq, Inhabited

namespace Token

/-- The token that names nothing. -/
def null : Token := ⟨0⟩

def isNull (t : Token) : Bool := t.value == 0

/-- The greatest row that fits a token. -/
def maxRow : Nat := 0x00FFFFFF

/-- The token of a row in a table; only the low three bytes of the row count. -/
def ofParts (table : Table) (row : UInt32) : Token :=
  ⟨(table.code.toUInt32 <<< 24) ||| (row &&& 0x00FFFFFF)⟩

/-- The byte for the table. -/
def tableCode (t : Token) : UInt8 := (t.value >>> 24).toUInt8

/-- The table, if the byte is that of one. -/
def table? (t : Token) : Option Table := Table.ofCode? t.tableCode

/-- The row inside the table. -/
def row (t : Token) : UInt32 := t.value &&& 0x00FFFFFF

/-- Tokens are ordered by their numbers, so by table and then by row. -/
instance : Ord Token where
  compare a b := compare a.value b.value

/-- Eight hexadecimal digits. -/
def text (t : Token) : String := "0x" ++ Text.hexPadded 8 t.value.toNat

/-- The number together with its two parts. -/
def debugText (t : Token) : String :=
  "Token(" ++ t.text ++ ", table: 0x" ++ Text.hexPadded 2 t.tableCode.toNat ++
    ", row: " ++ toString t.row.toNat ++ ")"

end Token

end Reroute
