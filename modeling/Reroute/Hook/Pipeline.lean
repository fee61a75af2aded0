import Reroute.Hook.Program
/-!
# The call pipeline

A detoured call runs its hooks in three phases. The hooks before it run in
registration order until one fails or answers the call itself. Unless it was
answered, the hooks wrapped around it run next, the newest outermost, with
the clone inside. The hooks after it run last, each on the result of the
one before.

The running chains of a thread are kept on a stack of frames. A chain's
handle names its frame by position and the hooks that are still to come by
their number; hooks may call detoured methods themselves, which puts frames
on top and takes them off again, so the frame of a handle stays where it is
for as long as its own chain runs. Calls may nest without end, so they are
given a depth at which they are abandoned.
-/

namespace Reroute

/-- The compiled clone of a method, on its flat arguments. -/
abbrev Compiled := List Value → Answer

/-- What the pipeline needs to know of a detoured method. -/
structure Target where
  hasReceiver : Bool
  /-- What the clone does on its flat arguments. -/
  body : List Value → Program Empty Answer

namespace Target

/-- A clone that calls no detoured method. -/
def ofCompiled (hasReceiver : Bool) (compiled : Compiled) : Target :=
  ⟨hasReceiver, fun args => .done (compiled args)⟩

/-- What the caller of a method with a receiver gets back: its arguments are
changed only if the call succeeds. -/
def handBack (args : List Value) (answer : Answer) : Answer :=
  match answer.result with
  | .error error => .fail error args
  | .ok value =>
    let changed := answer.args.drop 1
    ⟨.ok value, changed.take args.length ++ args.drop changed.length⟩

/-- Calls the clone with the receiver as its first argument. A method without
a receiver works on the caller's own arguments. -/
def invoke (t : Target) (receiver : Option Value) (args : List Value) : Program Empty Answer :=
  if t.hasReceiver then
    (t.body (receiver.getD .null :: args)).bind fun answer => .done (handBack args answer)
  else t.body args

end Target

/-- A running chain: its hooks as they were when it started, and what is
inside them. -/
structure Frame where
  hooks : List HookId
  target : Target

/-- The state of a thread that makes detoured calls. -/
structure Thread where
  /-- The hooks of each detoured method. -/
  lists : Handle → HookLists
  /-- The running chains, the outermost first. -/
  frames : List Frame
  /-- The lines that hooks wrote. -/
  lines : List String

namespace Thread

/-- A thread before its first call. -/
def fresh : Thread := ⟨fun _ => .empty, [], []⟩

/-- How many chains are running. -/
def depth (t : Thread) : Nat := t.frames.length

/-- Changes the hooks of a method. -/
def edit (method : Handle) (change : HookEdit) (t : Thread) : Bool × Thread :=
  let (made, lists) := change.apply (t.lists method)
  (made, { t with lists := fun h => if h = method then lists else t.lists h })

/-- Writes a line. -/
def log (line : String) (t : Thread) : Thread := { t with lines := t.lines ++ [line] }

end Thread

/-- What a call can reach: the detoured methods, and what hooks do. -/
structure Surroundings where
  target? : Handle → Option Target
  behaviours : Behaviours

namespace Pipeline

variable (around : Surroundings) (enter : Handle → Handler Thread)

/-- The services of a hook, given what its handles lead to. -/
def services {ν : Type} (next : ν → Handler Thread) (isInnermost : ν → Bool) :
    Services ν Thread where
  next := next
  isInnermost handle _ := isInnermost handle
  call := enter
  edit := Thread.edit
  depth := Thread.depth
  log := Thread.log
  consult := Thread.lines

/-- The services of a hook without a handle, and of a clone. -/
def plainServices : Services Empty Thread := services enter nofun nofun

/-- Goes on through a handle: the frame it names and the hooks to come. -/
def callNext (frame : Nat) : (remaining : Nat) → Handler Thread
  | remaining, receiver, args, t =>
    match t.frames[frame]? with
    | none => (.fail (.impossible "chain handle used after its call returned") args, t)
    | some running =>
      match remaining with
      | 0 => (running.target.invoke receiver args).run (plainServices enter) t
      | index + 1 =>
        match running.hooks[index]? with
        | none => (.fail .abandoned args, t)
        | some hook =>
          (around.behaviours.chain hook receiver args).run
            (services enter (fun _ => callNext frame index) fun _ => index == 0) t

/-- Runs a chain in a frame of its own. -/
def runChain (hooks : List HookId) (target : Target) : Handler Thread :=
  fun receiver args t =>
    let position := t.frames.length
    let (answer, t) :=
      callNext around enter position hooks.length receiver args
        { t with frames := t.frames ++ [⟨hooks, target⟩] }
    (answer, { t with frames := t.frames.take position })

/-- Runs hooks before a call. The outcome is the value that answers the call,
if a hook has given one. -/
def runBefore (receiver : Option Value) :
    List HookId → List Value → Thread → (Except Error (Option Value) × List Value) × Thread
  | [], args, t => ((.ok none, args), t)
  | hook :: rest, args, t =>
    match (around.behaviours.before hook receiver args).run (plainServices enter) t with
    | ((.error error, args), t) => ((.error error, args), t)
    | ((.ok verdict, args), t) =>
      if verdict.prevent then ((.ok (some verdict.value), args), t)
      else runBefore receiver rest args t

/-- Runs hooks after a call, each on the result of the one before. -/
def runAfter (receiver : Option Value) : List HookId → Answer → Thread → Answer × Thread
  | [], answer, t => (answer, t)
  | hook :: rest, answer, t =>
    match answer.result with
    | .error _ => (answer, t)
    | .ok value =>
      let (answer, t) :=
        (around.behaviours.after hook value receiver answer.args).run (plainServices enter) t
      runAfter receiver rest answer t

/-- The call between the hooks before it and those after it. -/
def runInner (method : Handle) (target : Target) : Handler Thread := fun receiver args t =>
  match (t.lists method).chain with
  | [] => (target.invoke receiver args).run (plainServices enter) t
  | hooks => runChain around enter hooks target receiver args t

/-- One call of a detoured method. -/
def runCall (method : Handle) (target : Target) : Handler Thread := fun receiver args t =>
  let (before, t) := runBefore around enter receiver (t.lists method).before args t
  match before with
  | (.error error, args) => (.fail error args, t)
  | (.ok prevented, args) =>
    let (answer, t) : Answer × Thread := match prevented with
      | some value => (⟨.ok value, args⟩, t)
      | none => runInner around enter method target receiver args t
    match answer.result with
    | .error _ => (answer, t)
    | .ok _ => runAfter around enter receiver (t.lists method).after answer t

/-- A call of the detoured method with a handle; detoured calls inside it may
be nested `fuel` deep. -/
def call (fuel : Nat) (method : Handle) : Handler Thread := fun receiver args t =>
  match fuel with
  | 0 => (.fail .abandoned args, t)
  | fuel + 1 =>
    match around.target? method with
    | none =>
      (.fail (.impossible ("method " ++ method.text ++ " is not detoured")) args, t)
    | some target => runCall around (call fuel) method target receiver args t

/-- A call of a detoured method that the caller holds itself. -/
def callTarget (fuel : Nat) (method : Handle) (target : Target) : Handler Thread :=
  runCall around (call around fuel) method target

end Pipeline

end Reroute
