import Reroute.Body.Section
/-!
# Method bodies

A body is its code and what the code needs to run. The tiny format keeps
the length of the code in its only header byte and assumes the rest; the fat
format has a header of twelve bytes or more and may be followed by exception
sections. `Body.decode` reads both formats, and `Body.encodeFat` writes the
fat one.
-/

namespace Reroute

/-- A method's code with what it needs to run. -/
structure Body where
  code : Bytes
  maxStack : UInt16
  /-- The signature of the local variables. -/
  localSignature : Token
  initLocals : Bool
  isFat : Bool
  regions : List Region
  deriving Repr, DecidableEq

namespace Body

/-- The stack depth of bodies that do not declare one. -/
def tinyMaxStack : UInt16 := 8

/-- The longest code of a tiny body. -/
def tinyMaxCode : Nat := 0x3F

/-- The least size of a fat header. -/
def fatHeaderSize : Nat := 12

/-- A body of bare code. -/
def ofCode (code : Bytes) : Body :=
  { code, maxStack := tinyMaxStack, localSignature := .null, initLocals := false,
    isFat := decide (tinyMaxCode < code.length), regions := [] }

def hasRegions (b : Body) : Bool := !b.regions.isEmpty

/-- The code behind a tiny header. -/
def readTiny (first : UInt8) : Reader Body := do
  Reader.advance 1
  let code ← Reader.bytes (first >>> 2).toNat
  return { ofCode code with isFat := false }

/-- A body whose header declares its own size. -/
def readFat : Reader Body := do
  let word ← Reader.value UInt16
  let size := (word >>> 12).toNat * 4
  if size < fatHeaderSize then
    Reader.fail (.ofDefect (.shortHeader size fatHeaderSize))
  else
    let maxStack ← Reader.value UInt16
    let codeSize ← Reader.value UInt32
    let localSignature ← Reader.value UInt32
    Reader.seek size
    let code ← Reader.bytes codeSize.toNat
    let regions ← if word &&& 0x8 = 0 then pure [] else Section.readChain
    return { code, maxStack, localSignature := ⟨localSignature⟩,
             initLocals := decide (word &&& 0x10 ≠ 0), isFat := true, regions }

/-- The body at the start of the bytes; the low bits of the first byte tell
its format. -/
def read : Reader Body := do
  if !(← Reader.hasMore) then
    Reader.fail (.ofDefect .emptyBody)
  else
    let first ← Reader.peek
    if first &&& 3 = 2 then readTiny first
    else if first &&& 3 = 3 then readFat
    else Reader.fail (.ofDefect (.unknownFormat first))

/-- The body that some bytes start with. -/
def decode (data : Bytes) : Except Error Body :=
  (Reader.runOn (read.namingDefect fun c => .truncatedBody data.length c.position) data).1

/-- How many zeros bring a length to the next multiple of four. -/
def padding (length : Nat) : Nat := (4 - length % 4) % 4

/-- The bytes of a fat body with an exception section or none. -/
def encodeFat (code : Bytes) (maxStack : UInt16) (localSignature : Token) (initLocals : Bool)
    (regions : Bytes) : Except Error Bytes :=
  if code.length < UInt32.size then
    let flags : UInt16 :=
      0x3003 ||| (if initLocals then 0x10 else 0) ||| (if regions.isEmpty then 0 else 0x8)
    let header :=
      LittleEndian.toBytes flags ++ LittleEndian.toBytes maxStack ++
        LittleEndian.toBytes (UInt32.ofNat code.length) ++
        LittleEndian.toBytes localSignature.value
    let bare := header ++ code
    .ok (if regions.isEmpty then bare
      else bare ++ List.replicate (padding bare.length) 0 ++ regions)
  else
    .error (.ofDefect (.codeTooLarge code.length))

end Body

end Reroute
