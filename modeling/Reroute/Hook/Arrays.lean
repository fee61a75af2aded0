import Reroute.Hook.Lists
/-!
# Hook lists as they are kept

A list of hooks is kept as an array that never changes. An edit makes another
array and lets the detour point there, so whoever has taken a pointer before still
finds the hooks of then. Adding and removing are the same for all three lists but
for one thing: only some lists take a hook more than once.
-/

namespace Reroute

/-- The arrays that were made so far, and for each phase the one in use. -/
structure HookArrays where
  arrays : List (List HookId)
  current : HookPhase → Nat

namespace HookArrays

/-- No hook is registered. -/
def empty : HookArrays := ⟨[[]], fun _ => 0⟩

/-- The hooks behind a pointer. -/
def read (s : HookArrays) (pointer : Nat) : List HookId := s.arrays.getD pointer []

/-- Lets a phase point at a new array. -/
def replace (s : HookArrays) (phase : HookPhase) (list : List HookId) : HookArrays where
  arrays := s.arrays ++ [list]
  current other := if other = phase then s.arrays.length else s.current other

/-- The position of the last occurrence of a hook. -/
def lastIndex? (hook : HookId) : List HookId → Option Nat
  | [] => none
  | other :: rest =>
    match lastIndex? hook rest with
    | some index => some (index + 1)
    | none => if other = hook then some 0 else none

def append (s : HookArrays) (phase : HookPhase) (hook : HookId) (unique : Bool) :
    Bool × HookArrays :=
  let list := s.read (s.current phase)
  if unique && list.contains hook then (false, s) else (true, s.replace phase (list ++ [hook]))

def remove (s : HookArrays) (phase : HookPhase) (hook : HookId) : Bool × HookArrays :=
  let list := s.read (s.current phase)
  match lastIndex? hook list with
  | none => (false, s)
  | some index => (true, s.replace phase (list.eraseIdx index))

/-- The arrays behind a change, and whether it was made. -/
def edit (s : HookArrays) : HookEdit → Bool × HookArrays
  | .add phase hook => s.append phase hook (phase = .chain)
  | .remove phase hook => s.remove phase hook

/-- The lists in use. -/
def lists (s : HookArrays) : HookLists where
  before := s.read (s.current .before)
  chain := s.read (s.current .chain)
  after := s.read (s.current .after)

/-- Changes one after the other, with the answer to each. -/
def run : List HookEdit → HookArrays → List Bool × HookArrays
  | [], s => ([], s)
  | change :: rest, s =>
    let (made, s) := s.edit change
    let (answers, s) := run rest s
    (made :: answers, s)

end HookArrays

end Reroute
