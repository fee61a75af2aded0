import Reroute.Entity.Interner
/-!
# Protected regions

A protected region is a stretch of bytecode with a handler. Its flags say
what sort of handler it is, the first that is set in a fixed order; without
any it is a catch clause, which names the type that it catches in the scope
of the body.
-/

namespace Reroute

/-- The flags of a region. Only three bits are defined, but a region may be
built with any. -/
structure RegionFlags where
  bits : UInt16
  deriving Repr, DecidableEq

namespace RegionFlags

def catchFlag : RegionFlags := ⟨0⟩
def filterFlag : RegionFlags := ⟨1⟩
def finallyFlag : RegionFlags := ⟨2⟩
def faultFlag : RegionFlags := ⟨4⟩

/-- Whether all bits of `flag` are set. -/
def contains (f flag : RegionFlags) : Bool := f.bits &&& flag.bits == flag.bits

/-- The flags without the bits that have no meaning. -/
def defined (bits : UInt16) : RegionFlags := ⟨bits &&& 7⟩

end RegionFlags

/-- The sorts of handlers. -/
inductive RegionKind where
  | catchClause
  | filterClause
  | finallyClause
  | faultClause
  deriving Repr, DecidableEq

/-- The name of a kind in listings. -/
def RegionKind.name : RegionKind → String
  | .catchClause => "Catch"
  | .filterClause => "Filter"
  | .finallyClause => "Finally"
  | .faultClause => "Fault"

/-- A stretch of code and its handler. -/
structure Region where
  flags : RegionFlags
  tryOffset : UInt32
  tryLength : UInt32
  handlerOffset : UInt32
  handlerLength : UInt32
  /-- The type that a catch clause catches. -/
  catchType : Option Token
  /-- Where the filter of a filter clause starts. -/
  filterOffset : UInt32
  deriving Repr, DecidableEq

namespace Region

/-- A region with the given flags that neither catches a type nor filters. -/
def ofFlags (flags : RegionFlags) (tryOffset tryLength handlerOffset handlerLength : UInt32) :
    Region :=
  { flags, tryOffset, tryLength, handlerOffset, handlerLength, catchType := none,
    filterOffset := 0 }

/-- A catch clause. -/
def catching (tryOffset tryLength handlerOffset handlerLength : UInt32) (type : Token) : Region :=
  { ofFlags .catchFlag tryOffset tryLength handlerOffset handlerLength with catchType := some type }

/-- A clause that asks a filter first. -/
def filtering (tryOffset tryLength handlerOffset handlerLength filterOffset : UInt32) : Region :=
  { ofFlags .filterFlag tryOffset tryLength handlerOffset handlerLength with filterOffset }

def kind (r : Region) : RegionKind :=
  if r.flags.contains .filterFlag then .filterClause
  else if r.flags.contains .finallyFlag then .finallyClause
  else if r.flags.contains .faultFlag then .faultClause
  else .catchClause

/-- Whether a field of the region is too large for the narrow layout. -/
def requiresFat (r : Region) : Bool :=
  0xFFFF < r.tryOffset || 0xFFFF < r.handlerOffset || 0xFF < r.tryLength || 0xFF < r.handlerLength

end Region

end Reroute
