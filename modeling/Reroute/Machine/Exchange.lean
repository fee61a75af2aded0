import Reroute.Machine.Memory
/-!
# Exchanges by attempts

A processor replaces a value in memory only if the value is the one that it was
told to expect; an attempt that fails says what is there, and the next one
expects that. `Memory.exchangePair` is the replacement of a pair as such a
series of attempts, on the aligned word that covers the pair or on the pair
itself. Between two attempts other processors may have changed the memory, so
every attempt has a memory of its own.
-/

namespace Reroute

namespace Memory

/-- One attempt: the memory that it finds, and whether the processor gives up
even if the expected value is there. -/
structure Attempt where
  memory : Memory
  spurious : Bool

/-- Attempts to replace the value at an address by a function of it, the first of
which expects `guess`: the value that was replaced and the memory behind, if
one of them succeeds. -/
def update {α : Type} [LittleEndian α] [DecidableEq α] (address : UInt64) (f : α → α)
    (guess : α) : List Attempt → Option (α × Memory)
  | [] => none
  | attempt :: rest =>
    let observed := attempt.memory.value α address
    if observed = guess ∧ attempt.spurious = false then
      some (observed, attempt.memory.store address (f guess))
    else update address f observed rest

/-- A word with the pair replaced that has `shift` bits below it. -/
def replacePair (shift : UInt64) (value : UInt16) (word : UInt64) : UInt64 :=
  let mask : UInt64 := 0xFFFF <<< shift
  (word &&& ~~~mask) ||| (value.toUInt64 <<< shift)

/-- Attempts to replace the pair of bytes at an address. The word that covers the
pair is loaded from the memory `m` before the first attempt; for a pair that
straddles two words the first guess is zero. -/
def exchangePair (m : Memory) (address : UInt64) (value : UInt16) (attempts : List Attempt) :
    Option (UInt16 × Memory) :=
  match covering? address with
  | some (base, shift) =>
    (update base (replacePair shift value) (m.value UInt64 base) attempts).map
      fun (word, behind) => ((word >>> shift).toUInt16, behind)
  | none => update address (fun _ => value) 0 attempts

end Memory

end Reroute
