import Reroute.Body.Region
import Reroute.Bytes.Cursor
/-!
# Exception sections

The regions of a body are stored in sections behind its code. A section is
thin, with twelve bytes for each clause, or fat, with twenty-four; both
layouts hold the same fields in the same order and differ in their widths
(`Clause.encode`, `Clause.read`). `Section.encode` writes one section, thin
if the section and every region fit that layout. `Section.readChain` reads
sections for as long as each announces another, each from a position
divisible by four.
-/

namespace Reroute

namespace Section

def headerSize : Nat := 4

/-- The bit of a header that says that the section holds regions. -/
def tableFlag : UInt8 := 0x01

/-- The bit of a header that says that the section is fat. -/
def fatFlag : UInt8 := 0x40

/-- The bit of a header that says that another section follows. -/
def moreFlag : UInt8 := 0x80

/-- The two widths in which clauses are stored. -/
inductive Layout where
  | thin
  | fat
  deriving Repr, DecidableEq

/-- The bytes of a clause. -/
def Layout.clauseSize : Layout → Nat
  | .thin => 12
  | .fat => 24

/-- The bytes of a section of `count` clauses. -/
def Layout.sectionSize (layout : Layout) (count : Nat) : Nat :=
  headerSize + count * layout.clauseSize

/-- The greatest section that the header of a layout can announce. -/
def Layout.maxSize : Layout → Nat
  | .thin => 0xFF
  | .fat => 0xFFFFFF

end Section

/-- A region as it is stored: its last field is the caught type, the filter
or nothing, as the flags say. -/
structure Clause where
  flags : RegionFlags
  tryOffset : UInt32
  tryLength : UInt32
  handlerOffset : UInt32
  handlerLength : UInt32
  trailer : UInt32
  deriving Repr, DecidableEq

namespace Clause

/-- The bytes of a clause. In the thin layout fields keep their low bytes. -/
def encode (layout : Section.Layout) (c : Clause) : Bytes :=
  match layout with
  | .thin =>
    LittleEndian.toBytes c.flags.bits ++ LittleEndian.toBytes c.tryOffset.toUInt16 ++
      LittleEndian.toBytes c.tryLength.toUInt8 ++ LittleEndian.toBytes c.handlerOffset.toUInt16 ++
      LittleEndian.toBytes c.handlerLength.toUInt8 ++ LittleEndian.toBytes c.trailer
  | .fat =>
    LittleEndian.toBytes c.flags.bits.toUInt32 ++ LittleEndian.toBytes c.tryOffset ++
      LittleEndian.toBytes c.tryLength ++ LittleEndian.toBytes c.handlerOffset ++
      LittleEndian.toBytes c.handlerLength ++ LittleEndian.toBytes c.trailer

/-- The clause at the cursor; bits of its flags that have no meaning are dropped. -/
def read : Section.Layout → Reader Clause
  | .thin => do
    let flags ← Reader.value UInt16
    let tryOffset ← Reader.value UInt16
    let tryLength ← Reader.value UInt8
    let handlerOffset ← Reader.value UInt16
    let handlerLength ← Reader.value UInt8
    let trailer ← Reader.value UInt32
    return { flags := .defined flags, tryOffset := tryOffset.toUInt32,
             tryLength := tryLength.toUInt32, handlerOffset := handlerOffset.toUInt32,
             handlerLength := handlerLength.toUInt32, trailer }
  | .fat => do
    let flags ← Reader.value UInt32
    let tryOffset ← Reader.value UInt32
    let tryLength ← Reader.value UInt32
    let handlerOffset ← Reader.value UInt32
    let handlerLength ← Reader.value UInt32
    let trailer ← Reader.value UInt32
    return { flags := .defined flags.toUInt16, tryOffset, tryLength, handlerOffset,
             handlerLength, trailer }

/-- The region that a clause stores. -/
def toRegion (c : Clause) : Region :=
  let region := Region.ofFlags c.flags c.tryOffset c.tryLength c.handlerOffset c.handlerLength
  match region.kind with
  | .catchClause => { region with catchType := some ⟨c.trailer⟩ }
  | .filterClause => { region with filterOffset := c.trailer }
  | .finallyClause | .faultClause => region

/-- A region as it is stored, with its last field. -/
def ofRegion (r : Region) (trailer : UInt32) : Clause :=
  { flags := r.flags, tryOffset := r.tryOffset, tryLength := r.tryLength,
    handlerOffset := r.handlerOffset, handlerLength := r.handlerLength, trailer }

end Clause

namespace Region

/-- The last field of a region's clause. The type of a catch clause is named
anew in the clone's scope; a catch clause must have one. -/
def trailer (source : Scope) (r : Region) : Interning UInt32 :=
  match r.kind with
  | .catchClause =>
    let missing : Error :=
      .invalidExceptionData
        ("catch clause at " ++ Text.label r.handlerOffset.toNat ++ " has no exception type")
    match r.catchType with
    | some type =>
      if type.isNull then Interning.ofExcept (.error missing)
      else do return (← Interning.resolve source .type type).value
    | none => Interning.ofExcept (.error missing)
  | .filterClause => pure r.filterOffset
  | .finallyClause | .faultClause => pure 0

/-- A region as it is stored for a clone. -/
def toClause (source : Scope) (r : Region) : Interning Clause := do
  return Clause.ofRegion r (← r.trailer source)

end Region

namespace Section

/-- The layout for regions: thin if the section and each region fit it. -/
def layoutFor (regions : List Region) : Layout :=
  if Layout.thin.maxSize < Layout.thin.sectionSize regions.length ∨ regions.any Region.requiresFat
  then .fat else .thin

/-- The header of a section of `count` clauses with nothing behind it. -/
def header (layout : Layout) (count : Nat) : Bytes :=
  match layout with
  | .thin => [tableFlag, UInt8.ofNat (layout.sectionSize count), 0, 0]
  | .fat => (tableFlag ||| fatFlag) :: Bytes.ofNat 3 (layout.sectionSize count)

/-- One section with all regions, in the clone's scope; no regions need none. -/
def encode (source : Scope) (regions : List Region) : Interning Bytes :=
  if regions.isEmpty then pure []
  else
    let layout := layoutFor regions
    if layout = .fat ∧ layout.maxSize < layout.sectionSize regions.length then
      Interning.ofExcept (.error (.invalidExceptionData
        (toString regions.length ++ " regions do not fit a section")))
    else do
      let clauses ← regions.mapM (Region.toClause source)
      return header layout regions.length ++ (clauses.map (Clause.encode layout)).flatten

/-- Reads `count` clauses of a layout. -/
def readClauses (layout : Layout) : Nat → Reader (List Region)
  | 0 => pure []
  | count + 1 => do
    let first ← Clause.read layout
    let rest ← readClauses layout count
    return first.toRegion :: rest

/-- The size that the rest of a header announces. -/
def readSize : Layout → Reader Nat
  | .thin => do
    let size ← Reader.value UInt8
    Reader.advance 2
    return size.toNat
  | .fat => do return (← Reader.u24).toNat

/-- The section at the cursor, which starts at `start`: its regions and
whether it announces another; nothing if it is no section of regions. -/
def readOne (start : Nat) : Reader (Option (List Region × Bool)) := do
  let flags ← Reader.value UInt8
  if flags &&& tableFlag = 0 then return none
  else
    let layout := if flags &&& fatFlag = 0 then Layout.thin else .fat
    let size ← readSize layout
    if size < headerSize ∨ (size - headerSize) % layout.clauseSize ≠ 0 then
      Reader.fail (.ofDefect (.sectionSize start size))
    else
      let remaining ← Reader.remaining
      if remaining < size - headerSize then
        Reader.fail (.ofDefect (.truncatedSection start))
      else
        let regions ← readClauses layout ((size - headerSize) / layout.clauseSize)
        return some (regions, flags &&& moreFlag ≠ 0)

/-- At most `count` sections of a chain. -/
def readMany : (count : Nat) → Reader (List Region)
  | 0 => pure []
  | count + 1 => do
    Reader.align 4
    match ← readOne (← Reader.position) with
    | none => return []
    | some (regions, false) => return regions
    | some (regions, true) => return regions ++ (← readMany count)

/-- The regions of the sections at the cursor. A section has at least one
byte, so a chain has no more sections than there are bytes, and running out
of bytes in the middle of one is an error. -/
def readChain : Reader (List Region) := do
  let start ← Reader.position
  let remaining ← Reader.remaining
  (readMany (remaining + 1)).namingDefect fun _ => .truncatedSections start

end Section

end Reroute
