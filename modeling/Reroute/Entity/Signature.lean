import Reroute.Text.Record
/-!
# Types of parameters and method signatures

Signatures describe a parameter by its element type and by whether it is
passed by reference. The convention of a signature is a byte of flags; a
flag is set when all of its bits are, so the two bits of the variable
argument flag count only together.
-/

namespace Reroute

/-- The element types that a signature can mention. -/
inductive ElementType where
  | void
  | boolean
  | char
  | i1
  | u1
  | i2
  | u2
  | i4
  | u4
  | i8
  | u8
  | r4
  | r8
  | string
  | ptr
  | valueType
  | classType
  | i
  | u
  | fnPtr
  | object
  | szArray
  deriving Repr, DecidableEq

namespace ElementType

/-- The byte of an element type in a signature. -/
def code : ElementType → UInt8
  | .void => 0x01
  | .boolean => 0x02
  | .char => 0x03
  | .i1 => 0x04
  | .u1 => 0x05
  | .i2 => 0x06
  | .u2 => 0x07
  | .i4 => 0x08
  | .u4 => 0x09
  | .i8 => 0x0A
  | .u8 => 0x0B
  | .r4 => 0x0C
  | .r8 => 0x0D
  | .string => 0x0E
  | .ptr => 0x0F
  | .valueType => 0x11
  | .classType => 0x12
  | .i => 0x18
  | .u => 0x19
  | .fnPtr => 0x1B
  | .object => 0x1C
  | .szArray => 0x1D

def all : List ElementType :=
  [.void, .boolean, .char, .i1, .u1, .i2, .u2, .i4, .u4, .i8, .u8, .r4, .r8, .string, .ptr,
   .valueType, .classType, .i, .u, .fnPtr, .object, .szArray]

/-- The element type with a given byte. -/
def ofCode? (byte : UInt8) : Option ElementType := all.find? fun e => e.code == byte

/-- The short name of an element type in metadata listings. -/
def name : ElementType → String
  | .void => "Void"
  | .boolean => "Boolean"
  | .char => "Char"
  | .i1 => "I1"
  | .u1 => "U1"
  | .i2 => "I2"
  | .u2 => "U2"
  | .i4 => "I4"
  | .u4 => "U4"
  | .i8 => "I8"
  | .u8 => "U8"
  | .r4 => "R4"
  | .r8 => "R8"
  | .string => "String"
  | .ptr => "Ptr"
  | .valueType => "ValueType"
  | .classType => "Class"
  | .i => "I"
  | .u => "U"
  | .fnPtr => "FnPtr"
  | .object => "Object"
  | .szArray => "SzArray"

/-- The spelling of an element type in assembly text. -/
def text : ElementType → String
  | .void => "void"
  | .boolean => "bool"
  | .char => "char"
  | .i1 => "int8"
  | .u1 => "uint8"
  | .i2 => "int16"
  | .u2 => "uint16"
  | .i4 => "int32"
  | .u4 => "uint32"
  | .i8 => "int64"
  | .u8 => "uint64"
  | .r4 => "float32"
  | .r8 => "float64"
  | .string => "string"
  | .ptr => "ptr"
  | .valueType => "valuetype"
  | .classType => "class"
  | .i => "native int"
  | .u => "native uint"
  | .fnPtr => "method"
  | .object => "object"
  | .szArray => "szarray"

/-- The types that travel in floating-point registers. -/
def isFloat : ElementType → Bool
  | .r4 | .r8 => true
  | _ => false

/-- The types that take eight bytes on every host. -/
def isWide : ElementType → Bool
  | .i8 | .u8 | .r8 => true
  | _ => false

/-- The types whose values are references to objects. -/
def isReference : ElementType → Bool
  | .string | .classType | .object | .szArray => true
  | _ => false

end ElementType

/-- The type of a parameter or of a result. -/
structure ParamType where
  element : ElementType
  byRef : Bool
  deriving Repr, DecidableEq

namespace ParamType

/-- A parameter passed by value. -/
def plain (element : ElementType) : ParamType := ⟨element, false⟩

/-- A parameter passed by reference. -/
def reference (element : ElementType) : ParamType := ⟨element, true⟩

def isVoid (p : ParamType) : Bool := !p.byRef && p.element == .void

def text (p : ParamType) : String := p.element.text ++ (if p.byRef then "&" else "")

def debugText (p : ParamType) : String :=
  Text.record "ParamType" [("element", p.element.name), ("by_ref", Text.truth p.byRef)]

end ParamType

/-- The flags of a signature's convention. -/
structure Convention where
  bits : UInt8
  deriving Repr, DecidableEq

namespace Convention

def none : Convention := ⟨0⟩
def vararg : Convention := ⟨0x05⟩
def generic : Convention := ⟨0x10⟩
def hasThis : Convention := ⟨0x20⟩
def explicitThis : Convention := ⟨0x40⟩

/-- Whether all bits of `flag` are set. -/
def contains (c flag : Convention) : Bool := c.bits &&& flag.bits == flag.bits

def union (a b : Convention) : Convention := ⟨a.bits ||| b.bits⟩

/-- The flags with their names, in the order in which they are listed. -/
def named : List (String × Convention) :=
  [("VARARG", vararg), ("GENERIC", generic), ("HAS_THIS", hasThis),
   ("EXPLICIT_THIS", explicitThis)]

/-- The names of the flags that are set, then the bits that belong to none. -/
def debugText (c : Convention) : String :=
  let present := named.filter fun entry => c.contains entry.2
  let covered := present.foldl (fun bits entry => bits ||| entry.2.bits) 0
  let left := c.bits &&& ~~~covered
  let parts := present.map Prod.fst ++ (if left = 0 then [] else ["0x" ++ Text.hex left.toNat])
  "CallingConventions(" ++ (if parts.isEmpty then "0x0" else " | ".intercalate parts) ++ ")"

end Convention

/-- The types of a method, its receiver apart. -/
structure Signature where
  convention : Convention
  params : List ParamType
  ret : ParamType
  deriving Repr, DecidableEq

namespace Signature

/-- A static signature without flags. -/
def plain (params : List ParamType) (ret : ParamType) : Signature :=
  ⟨.none, params, ret⟩

/-- The signature with the receiver flag set. -/
def withThis (s : Signature) : Signature :=
  { s with convention := s.convention.union .hasThis }

def hasThis (s : Signature) : Bool := s.convention.contains .hasThis

def isVararg (s : Signature) : Bool := s.convention.contains .vararg

def isGeneric (s : Signature) : Bool := s.convention.contains .generic

def hasByRefParams (s : Signature) : Bool := s.params.any ParamType.byRef

/-- The result, then the parameters between parentheses. -/
def text (s : Signature) : String :=
  (if s.hasThis then "instance " else "") ++ s.ret.text ++ " (" ++
    ", ".intercalate (s.params.map ParamType.text) ++ ")"

def debugText (s : Signature) : String :=
  Text.record "MethodSignature"
    [("calling_convention", s.convention.debugText),
     ("params", Text.listed (s.params.map ParamType.debugText)),
     ("return_type", s.ret.debugText)]

end Signature

end Reroute
