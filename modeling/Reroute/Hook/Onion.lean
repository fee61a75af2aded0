import Reroute.Hook.Pipeline
/-!
# The call as nested functions

The same three phases without frames: each hook that is wrapped around a
call is a function from the call inside it to a call, and the chain is the
clone wrapped in all of them, the oldest first. All that is kept of the
running chains is how many there are. This is what a detoured call is meant
to do; `Hook/Pipeline` is how it is done. Only the programs of hooks and
clones and the services that these ask for are common to both.
-/

namespace Reroute

/-- The state of a thread without its frames. -/
structure Circumstances where
  lists : Handle → HookLists
  depth : Nat
  lines : List String

namespace Circumstances

/-- What is left of a thread's state when its frames are only counted. -/
def ofThread (t : Thread) : Circumstances := ⟨t.lists, t.depth, t.lines⟩

def edit (method : Handle) (change : HookEdit) (c : Circumstances) : Bool × Circumstances :=
  let (made, lists) := change.apply (c.lists method)
  (made, { c with lists := fun h => if h = method then lists else c.lists h })

def log (line : String) (c : Circumstances) : Circumstances :=
  { c with lines := c.lines ++ [line] }

end Circumstances

namespace Onion

variable (behaviours : Behaviours) (enter : Handle → Handler Circumstances)

/-- The services of a hook, given what its handles lead to. -/
def services {ν : Type} (next : ν → Handler Circumstances) (isInnermost : ν → Bool) :
    Services ν Circumstances where
  next := next
  isInnermost handle _ := isInnermost handle
  call := enter
  edit := Circumstances.edit
  depth := Circumstances.depth
  log := Circumstances.log
  consult := Circumstances.lines

/-- The services of a hook without a handle, and of a clone. -/
def plainServices : Services Empty Circumstances := services enter nofun nofun

/-- A call inside a chain, and whether it is that of the clone. -/
structure Layer where
  run : Handler Circumstances
  isInnermost : Bool

/-- The clone on its own. A method with a receiver takes it as one more
argument in front of those of the caller, who finds in each place what the
clone has left one place behind; if the clone fails, the caller finds what was
passed. A method without a receiver works on the arguments that were passed. -/
def clone (target : Target) : Handler Circumstances := fun receiver args c =>
  if target.hasReceiver then
    match (target.body (receiver.getD .null :: args)).run (plainServices enter) c with
    | (⟨.ok value, left⟩, c) =>
      (⟨.ok value, args.mapIdx fun place passed => left[place + 1]?.getD passed⟩, c)
    | (⟨.error error, _⟩, c) => (.fail error args, c)
  else (target.body args).run (plainServices enter) c

/-- The innermost layer. -/
def core (target : Target) : Layer := ⟨clone enter target, true⟩

/-- A layer with a hook around it. -/
def wrap (inner : Layer) (hook : HookId) : Layer where
  run receiver args :=
    (behaviours.chain hook receiver args).run
      (services enter (fun _ => inner.run) fun _ => inner.isInnermost)
  isInnermost := false

/-- The clone with hooks around it, the last of the list outermost. -/
def layers (hooks : List HookId) (target : Target) : Layer :=
  hooks.foldl (wrap behaviours enter) (core enter target)

/-- What a hook before a call leaves to the next: the call is still open, or
it has its outcome. -/
abbrev Opening := (Except Error (Option Value) × List Value) × Circumstances

/-- One hook before a call, if the call is still open. -/
def openWith (receiver : Option Value) (state : Opening) (hook : HookId) : Opening :=
  match state with
  | ((.ok none, args), c) =>
    let ((verdict, args), c) :=
      (behaviours.before hook receiver args).run (plainServices enter) c
    ((verdict.map fun v => if v.prevent then some v.value else none, args), c)
  | decided => decided

/-- One hook after a call, if nothing has failed. -/
def closeWith (receiver : Option Value) (state : Answer × Circumstances) (hook : HookId) :
    Answer × Circumstances :=
  match state with
  | (⟨.ok value, args⟩, c) =>
    (behaviours.after hook value receiver args).run (plainServices enter) c
  | failed => failed

/-- The chain, or the bare clone if no hook is wrapped around it. -/
def inner (hooks : List HookId) (target : Target) : Handler Circumstances := fun receiver args c =>
  if hooks.isEmpty then clone enter target receiver args c
  else
    let (answer, after) :=
      (layers behaviours enter hooks target).run receiver args { c with depth := c.depth + 1 }
    (answer, { after with depth := c.depth })

/-- One call of a detoured method. -/
def runCall (method : Handle) (target : Target) : Handler Circumstances := fun receiver args c =>
  let ((opening, args), c) :=
    (c.lists method).before.foldl (openWith behaviours enter receiver) ((.ok none, args), c)
  let (answer, c) : Answer × Circumstances := match opening with
    | .error error => (.fail error args, c)
    | .ok (some value) => (⟨.ok value, args⟩, c)
    | .ok none => inner behaviours enter (c.lists method).chain target receiver args c
  (c.lists method).after.foldl (closeWith behaviours enter receiver) (answer, c)

/-- A call of a detoured method, which may be nested `fuel` deep. -/
def call (around : Surroundings) (fuel : Nat) (method : Handle) : Handler Circumstances :=
  fun receiver args c =>
    match fuel with
    | 0 => (.fail .abandoned args, c)
    | fuel + 1 =>
      match around.target? method with
      | none =>
        (.fail (.impossible ("method " ++ method.text ++ " is not detoured")) args, c)
      | some target =>
        runCall around.behaviours (call around fuel) method target receiver args c

/-- A call of a detoured method that the caller holds itself. -/
def callTarget (around : Surroundings) (fuel : Nat) (method : Handle) (target : Target) :
    Handler Circumstances :=
  runCall around.behaviours (call around fuel) method target

end Onion

end Reroute
