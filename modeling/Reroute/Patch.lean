import Reroute.Machine.Pages
import Reroute.Patch.Jump
/-!
# Patching a running entry point

A jump is longer than one access can write, and other threads may enter the
code while it is being written. So the first two bytes are replaced first,
by a jump to themselves that parks whoever arrives; then the rest of the
jump is written behind them; and last the first two bytes of the jump let
everyone go on. `Patch.stores` lists the stores in this order, `Patch.run`
makes them, and `Patch.states` are the memories in between.
-/

namespace Reroute

/-- How a method is redirected. -/
structure PatchOptions where
  /-- How long to wait for threads that are inside the first bytes. -/
  settleMilliseconds : Nat
  /-- Whether an entry point that is an indirect jump is followed. -/
  resolveIndirection : Bool
  /-- Whether the pages get their protection back. -/
  restoreProtection : Bool
  deriving Repr, DecidableEq

namespace PatchOptions

def standard : PatchOptions := ⟨3, true, true⟩

/-- No waiting. -/
def immediate : PatchOptions := { standard with settleMilliseconds := 0 }

/-- The entry point is taken as it is. -/
def literal : PatchOptions := { standard with resolveIndirection := false }

/-- The pages stay writable. -/
def permissive : PatchOptions := { standard with restoreProtection := false }

/-- The options that have a name. -/
def presets : List (String × PatchOptions) :=
  [("default", standard), ("immediate", immediate), ("literal", literal),
   ("permissive", permissive)]

end PatchOptions

namespace Patch

/-- One store of a patch. -/
inductive Store where
  /-- Two bytes in one access. -/
  | pair (address : UInt64) (value : UInt16)
  | byte (address : UInt64) (value : UInt8)
  deriving Repr, DecidableEq

/-- The memory behind a store. -/
def Store.apply (m : Memory) : Store → Memory
  | .pair address value => (m.swapPair address value).2
  | .byte address value => m.write address [value]

/-- A jump of two bytes to itself. -/
def spin : UInt16 := 0xFEEB

/-- The bytes of a jump behind its first two, each in its place. -/
def trailing (site : UInt64) (jump : Bytes) : List Store :=
  (jump.drop 2).mapIdx fun i byte => .byte (site + 2 + UInt64.ofNat i) byte

/-- The stores that put a jump of at least two bytes at a site, where those
behind its first two bytes are made in some order. -/
def storesVia (order : List Store) (site : UInt64) (jump : Bytes) : List Store :=
  .pair site spin :: order ++ [.pair site (LittleEndian.ofBytes (jump.take 2))]

/-- The stores of a patch. The bytes behind the first two are copied from the
front. -/
def stores (site : UInt64) (jump : Bytes) : List Store :=
  storesVia (trailing site jump) site jump

/-- The memories that a list of stores goes through, the first included. -/
def states (m : Memory) : List Store → List Memory
  | [] => [m]
  | store :: rest => m :: states (store.apply m) rest

/-- The memory behind a list of stores. -/
def applyAll (m : Memory) (list : List Store) : Memory := list.foldl Store.apply m

/-- The site of a patch. -/
def site (r : Redirector) (options : PatchOptions) (m : Memory) (target : UInt64) : UInt64 :=
  if options.resolveIndirection then r.resolve m target else target

/-- What a patch does: the stores that it makes, one after the other, what it
answers, and the protection that it leaves. -/
structure Course where
  answer : Except Error UInt64
  stores : List Store
  pages : Pages

/-- The course of a patch. Nothing is stored unless the whole range can be made
writable. -/
def course (r : Redirector) (target replacement : UInt64) (options : PatchOptions)
    (s : AddressSpace) : Course :=
  let site := site r options s.memory target
  match r.jump site replacement with
  | .error error => ⟨.error error, [], s.pages⟩
  | .ok jump =>
    if jump.length < 2 then
      ⟨.error (.impossible
        (r.architecture ++ " jump encodes to " ++ toString jump.length ++ " bytes")), [], s.pages⟩
    else
      match PageGuard.unprotect site jump.length options.restoreProtection s.pages with
      | (.error error, pages) => ⟨.error error, [], pages⟩
      | (.ok pageGuard, pages) => ⟨.ok site, stores site jump, pageGuard.release pages⟩

/-- Redirects an entry point and says where the jump was put. -/
def run (r : Redirector) (target replacement : UInt64) (options : PatchOptions)
    (s : AddressSpace) : Except Error UInt64 × AddressSpace :=
  let course := course r target replacement options s
  (course.answer,
    { s with memory := applyAll s.memory course.stores, pages := course.pages })

end Patch

end Reroute
