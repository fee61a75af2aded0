import Reroute.Bytes.Cursor
/-!
# Commands to a cursor

All that can be asked of a cursor, with arguments that are machine words, since
they may come from the very file that is read. A cursor goes through a series of
commands with `Cursor.after`, and past those that fail.

A `WordCursor` takes the same commands and computes in words only. Nothing in its
type keeps it inside of its bytes and a sum of its words may wrap around, so each
of its readers compares with what is left before it adds.
-/

namespace Reroute

/-- A command to a cursor, by the type of its answer. -/
inductive Command : Type → Type 1 where
  | seek (position : UInt64) : Command Unit
  | reset : Command Unit
  | advance (count : UInt64) : Command Unit
  | align (alignment : UInt64) (nonzero : alignment ≠ 0) : Command Unit
  | peek : Command UInt8
  | bytes (count : UInt64) : Command Bytes
  | value (α : Type) [LittleEndian α] : Command α
  | u24 : Command UInt32

/-- The reader that a command stands for. -/
def Command.perform : {α : Type} → Command α → Reader α
  | _, .seek position => Reader.seek position.toNat
  | _, .reset => Reader.reset
  | _, .advance count => Reader.advance count.toNat
  | _, .align alignment _ => Reader.align alignment.toNat
  | _, .peek => Reader.peek
  | _, .bytes count => Reader.bytes count.toNat
  | _, @Command.value α _ => Reader.value α
  | _, .u24 => Reader.u24

/-- The cursor behind some commands, whether they have failed or not. -/
def Cursor.after (c : Cursor) (commands : List (Sigma Command)) : Cursor :=
  commands.foldl (fun c command => (command.2.perform c).2) c

/-! ## In words -/

/-- A position in a string of bytes, as a machine word. -/
structure WordCursor where
  data : Bytes
  position : UInt64

namespace WordCursor

def start (data : Bytes) : WordCursor := ⟨data, 0⟩

/-- How many bytes there are. -/
def size (c : WordCursor) : UInt64 := UInt64.ofNat c.data.length

/-- How many bytes are ahead; none are behind the end. -/
def remaining (c : WordCursor) : UInt64 :=
  if c.position ≤ c.size then c.size - c.position else 0

/-- The bytes between two positions. -/
def between (c : WordCursor) (first stop : UInt64) : Bytes :=
  (c.data.drop first.toNat).take (stop.toNat - first.toNat)

end WordCursor

/-- A computation over a cursor in words that may fail. -/
abbrev WordReader := ExceptT Error (StateM WordCursor)

namespace WordReader

def seek (position : UInt64) : WordReader Unit := fun c =>
  if c.size < position then (.error .outOfBounds, c) else (.ok (), { c with position })

def reset : WordReader Unit := fun c => (.ok (), { c with position := 0 })

def advance (count : UInt64) : WordReader Unit := fun c =>
  if c.remaining < count then (.error .outOfBounds, c)
  else (.ok (), { c with position := c.position + count })

def align (alignment : UInt64) : WordReader Unit := fun c =>
  advance ((alignment - c.position % alignment) % alignment) c

def peek : WordReader UInt8 := fun c =>
  match c.data[c.position.toNat]? with
  | some byte => (.ok byte, c)
  | none => (.error .outOfBounds, c)

def bytes (count : UInt64) : WordReader Bytes := fun c =>
  if c.remaining < count then (.error .outOfBounds, c)
  else
    (.ok (c.between c.position (c.position + count)), { c with position := c.position + count })

def value (α : Type) [LittleEndian α] : WordReader α := fun c =>
  match c.data.readAt? α c.position with
  | some (v, stop) => (.ok v, { c with position := stop })
  | none => (.error .outOfBounds, c)

/-- Three bytes shifted to their places in a number. -/
def u24 : WordReader UInt32 := do
  let taken ← bytes 3
  let part (i : Nat) : UInt32 := (taken.getD i 0).toUInt32
  return part 0 ||| part 1 <<< 8 ||| part 2 <<< 16

end WordReader

/-- The reader in words that a command stands for. -/
def Command.performInWords : {α : Type} → Command α → WordReader α
  | _, .seek position => WordReader.seek position
  | _, .reset => WordReader.reset
  | _, .advance count => WordReader.advance count
  | _, .align alignment _ => WordReader.align alignment
  | _, .peek => WordReader.peek
  | _, .bytes count => WordReader.bytes count
  | _, @Command.value α _ => WordReader.value α
  | _, .u24 => WordReader.u24

/-- The cursor in words behind some commands. -/
def WordCursor.after (c : WordCursor) (commands : List (Sigma Command)) : WordCursor :=
  commands.foldl (fun c command => (command.2.performInWords c).2) c

end Reroute
