import Reroute.Detour.Registry
/-!
# A host process

A process has a registry of detours, a thread that makes the calls, and the
error that a native call has parked for that thread. A parked error stays
until someone takes it or another one replaces it; calls that succeed do not
touch it. Each request starts a log of its own.
-/

namespace Reroute

/-- A process that detours methods and calls them. -/
structure Host where
  registry : Registry
  thread : Thread
  parked : Option Error
  behaviours : Behaviours
  /-- How deep detoured calls may be nested. -/
  nesting : Nat

namespace Host

/-- A process without detours. -/
def start (space : AddressSpace) (behaviours : Behaviours) (nesting : Nat) : Host :=
  { registry := .empty space, thread := .fresh, parked := none, behaviours, nesting }

/-- Detours a method. -/
def detour (r : Request) (h : Host) : Except Error Detour × Host :=
  let (result, registry) := h.registry.detour r
  (result, { h with registry })

/-- Detours a method from several threads at once. The result is that of the
first thread; all get the same detour. -/
def race (r : Request) (count : Nat) (h : Host) : Except Error Detour × Host :=
  let (results, registry) := h.registry.race r count
  (results.head?.getD (.error .abandoned), { h with registry })

/-- The parked error, which is no longer parked then. -/
def takeParked (h : Host) : Option Error × Host := (h.parked, { h with parked := none })

/-- Changes the hooks of a detour. -/
def edit (d : Detour) (change : HookEdit) (h : Host) : Bool × Host :=
  let (made, thread) := h.thread.edit d.method.handle change
  (made, { h with thread })

/-- The hooks of a detour. -/
def hooks (d : Detour) (h : Host) : HookLists := h.thread.lists d.method.handle

/-- Answers a call by a handler, with an empty log at its start. -/
def answer (handler : Handler Thread) (receiver : Option Value) (args : List Value) (h : Host) :
    Answer × Host :=
  let (answer, thread) := handler receiver args { h.thread with lines := [] }
  (answer, { h with thread })

/-- A call with the hooks of a detour. -/
def call (d : Detour) : Option Value → List Value → Host → Answer × Host :=
  fun receiver args h =>
    h.answer (Pipeline.callTarget (h.registry.surroundings h.behaviours) h.nesting
      d.method.handle d.target) receiver args

/-- A call without the hooks of a detour. -/
def callCloned (d : Detour) : Option Value → List Value → Host → Answer × Host :=
  fun receiver args h =>
    h.answer (d.invokeCloned (Pipeline.plainServices
      (Pipeline.call (h.registry.surroundings h.behaviours) h.nesting))) receiver args

/-- A native call of a method's entry point, whatever stands there. An error
of the call is parked. There is no outcome if control gets lost. -/
def callNative (d : Detour) (words : List UInt64) (m : Memory) (h : Host) :
    Option (Native.Outcome Thread × Host) := do
  let slots := Abi.host.classify d.form.signature.params
  let outcome ← Native.call (h.registry.proxy? h.behaviours h.nesting) d.method.entryPoint
    (slots.zip words) m { h.thread with lines := [] }
  some (outcome, { h with thread := outcome.state, parked := outcome.parked.or h.parked })

/-- Whether an address holds the jump to the proxy of a detour. -/
def leadsTo (d : Detour) (address : UInt64) (h : Host) : Bool :=
  h.registry.space.memory.read address Redirector.x64.jumpSize == Redirector.jump64 d.entry

end Host

end Reroute
