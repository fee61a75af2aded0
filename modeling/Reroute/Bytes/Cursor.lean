import Reroute.Bytes
import Reroute.Error
/-!
# A cursor over bytes

All binary formats are read through one cursor. It never stands behind the
end of its bytes, which is a field of the type, and a step that fails
leaves it where it was. A `Reader` is a computation over a cursor that may
fail and still says where the cursor stands then.
-/

namespace Reroute

/-- A position in a string of bytes. -/
structure Cursor where
  data : Bytes
  position : Nat
  inside : position ≤ data.length

namespace Cursor

/-- The cursor at the first byte. -/
def start (data : Bytes) : Cursor := ⟨data, 0, Nat.zero_le _⟩

/-- How many bytes are ahead. -/
def remaining (c : Cursor) : Nat := c.data.length - c.position

def hasMore (c : Cursor) : Bool := c.position < c.data.length

/-- The bytes ahead. -/
def ahead (c : Cursor) : Bytes := c.data.drop c.position

/-- The cursor at a position, if that is inside. -/
def seek? (c : Cursor) (position : Nat) : Option Cursor :=
  if h : position ≤ c.data.length then some { c with position := position, inside := h } else none

/-- The cursor behind the next `count` bytes, if there are so many. -/
def advance? (c : Cursor) (count : Nat) : Option Cursor := c.seek? (c.position + count)

/-- How many bytes lie between the cursor and the next multiple of `alignment`. -/
def padding (c : Cursor) (alignment : Nat) : Nat :=
  (alignment - c.position % alignment) % alignment

/-- The next `count` bytes and the cursor behind them. -/
def take? (c : Cursor) (count : Nat) : Option (Bytes × Cursor) :=
  (c.advance? count).map fun behind => (c.ahead.take count, behind)

end Cursor

/-- A computation over a cursor. The cursor's state outlives a failure. -/
abbrev Reader := ExceptT Error (StateM Cursor)

namespace Reader

/-- A step that either moves the cursor or runs out of bytes and leaves it. -/
def ofStep {α : Type} (step : Cursor → Option (α × Cursor)) : Reader α := fun c =>
  match step c with
  | some (value, behind) => (.ok value, behind)
  | none => (.error .outOfBounds, c)

/-- Runs a reader from the start of some bytes. -/
def runOn {α : Type} (r : Reader α) (data : Bytes) : Except Error α × Cursor :=
  r (.start data)

/-- Where the cursor stands. -/
def position : Reader Nat := fun c => (.ok c.position, c)

/-- How many bytes are ahead. -/
def remaining : Reader Nat := fun c => (.ok c.remaining, c)

def hasMore : Reader Bool := fun c => (.ok c.hasMore, c)

def fail {α : Type} (error : Error) : Reader α := fun c => (.error error, c)

/-- Moves to a position. -/
def seek (position : Nat) : Reader Unit :=
  ofStep fun c => (c.seek? position).map fun moved => ((), moved)

/-- Moves to the first byte. -/
def reset : Reader Unit := fun c => (.ok (), .start c.data)

/-- Skips bytes. -/
def advance (count : Nat) : Reader Unit :=
  ofStep fun c => (c.advance? count).map fun moved => ((), moved)

/-- Skips to the next multiple of `alignment`. -/
def align (alignment : Nat) : Reader Unit := fun c => advance (c.padding alignment) c

/-- The next byte, without moving. -/
def peek : Reader UInt8 :=
  ofStep fun c => c.data[c.position]?.map fun byte => (byte, c)

/-- The next `count` bytes. -/
def bytes (count : Nat) : Reader Bytes := ofStep fun c => c.take? count

/-- The next value of a fixed-width type. -/
def value (α : Type) [LittleEndian α] : Reader α :=
  ofStep fun c =>
    (c.take? (LittleEndian.width α)).map fun taken => (LittleEndian.ofBytes taken.1, taken.2)

/-- The next three bytes as a number. -/
def u24 : Reader UInt32 :=
  ofStep fun c => (c.take? 3).map fun taken => (UInt32.ofNat (Bytes.toNat taken.1), taken.2)

/-- Says which defect of the format it is when the bytes run out. -/
def namingDefect {α : Type} (defect : Cursor → Defect) (r : Reader α) : Reader α := fun c =>
  match r c with
  | (.error .outOfBounds, behind) => (.error (.ofDefect (defect behind)), behind)
  | result => result

end Reader

end Reroute
