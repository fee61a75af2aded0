import Reroute.Hook.Pipeline
/-!
# The call pipeline under watch

The pipeline of a detoured call with somebody beside it who takes notes. A run
of a chain is given a number when it begins, and its frame carries that
number on the stack. It is noted when a run begins and when it has ended,
with the stack as it was and as it is, and whenever a hook goes on through
its handle, with whose handle it is and what is found in the handle's place.

The notes are taken and the pipeline goes on. The one question that they
answer is how many chains are running: as many as have begun and not ended,
and not as many as there are frames.
-/

namespace Reroute

/-- A run of a chain: its number, and the frame that it puts on the stack. -/
structure ChainRun where
  number : Nat
  frame : Frame

inductive Moment where
  | began (own : ChainRun)
  /-- A hook of a run goes on through its handle. -/
  | used (own : ChainRun) (remaining : Nat) (found : Option ChainRun)
  | ended (own : ChainRun) (before after : List ChainRun)

namespace Moment

def begun? : Moment → Option ChainRun
  | .began own => some own
  | _ => none

def isEnd : Moment → Bool
  | .ended .. => true
  | _ => false

end Moment

structure Watch where
  lists : Handle → HookLists
  stack : List ChainRun
  lines : List String
  /-- How many chains were running before the first note. -/
  outset : Nat
  moments : List Moment

namespace Watch

def ofThread (t : Thread) : Watch where
  lists := t.lists
  stack := t.frames.mapIdx ChainRun.mk
  lines := t.lines
  outset := t.frames.length
  moments := []

def thread (w : Watch) : Thread := ⟨w.lists, w.stack.map ChainRun.frame, w.lines⟩

/-- How many runs have begun, those at the outset among them. -/
def started (w : Watch) : Nat := w.outset + (w.moments.filterMap Moment.begun?).length

def returned (w : Watch) : Nat := w.moments.countP Moment.isEnd

/-- How many chains are running, by the notes. -/
def running (w : Watch) : Nat := w.started - w.returned

def note (moment : Moment) (w : Watch) : Watch := { w with moments := w.moments ++ [moment] }

def push (own : ChainRun) (w : Watch) : Watch :=
  { w.note (.began own) with stack := w.stack ++ [own] }

/-- A run ends that began on some stack. -/
def pop (own : ChainRun) (before : List ChainRun) (w : Watch) : Watch :=
  let stack := w.stack.take before.length
  { w.note (.ended own before stack) with stack }

def edit (method : Handle) (change : HookEdit) (w : Watch) : Bool × Watch :=
  let (made, lists) := change.apply (w.lists method)
  (made, { w with lists := fun h => if h = method then lists else w.lists h })

def log (line : String) (w : Watch) : Watch := { w with lines := w.lines ++ [line] }

/-! ## What the notes change -/

section fields

variable (own : ChainRun) (before : List ChainRun) (remaining : Nat) (found : Option ChainRun)
  (moment : Moment) (w : Watch)

@[simp] theorem stack_note : (w.note moment).stack = w.stack := rfl

@[simp] theorem started_note_used : (w.note (.used own remaining found)).started = w.started := by
  simp [note, started, Moment.begun?]

@[simp] theorem returned_note_used :
    (w.note (.used own remaining found)).returned = w.returned := by
  simp [note, returned, Moment.isEnd]

@[simp] theorem stack_push : (w.push own).stack = w.stack ++ [own] := rfl

@[simp] theorem moments_push : (w.push own).moments = w.moments ++ [.began own] := rfl

@[simp] theorem started_push : (w.push own).started = w.started + 1 := by
  simp [push, note, started, Moment.begun?, Nat.add_assoc]

@[simp] theorem returned_push : (w.push own).returned = w.returned := by
  simp [push, note, returned, Moment.isEnd]

@[simp] theorem thread_push :
    (w.push own).thread = { w.thread with frames := w.thread.frames ++ [own.frame] } := by
  simp [thread, push, note]

@[simp] theorem stack_pop : (w.pop own before).stack = w.stack.take before.length := rfl

@[simp] theorem moments_pop : (w.pop own before).moments =
    w.moments ++ [.ended own before (w.stack.take before.length)] := rfl

@[simp] theorem started_pop : (w.pop own before).started = w.started := by
  simp [pop, note, started, Moment.begun?]

@[simp] theorem returned_pop : (w.pop own before).returned = w.returned + 1 := by
  simp [pop, note, returned, Moment.isEnd]

@[simp] theorem thread_pop : (w.pop own before).thread =
    { w.thread with frames := w.thread.frames.take before.length } := by
  simp [thread, pop, note, List.map_take]

@[simp] theorem length_frames_thread : w.thread.frames.length = w.stack.length := by
  simp [thread]

end fields

end Watch

namespace Watched

variable (around : Surroundings) (enter : Handle → Handler Watch)

def services {ν : Type} (next : ν → Handler Watch) (isInnermost : ν → Bool) :
    Services ν Watch where
  next := next
  isInnermost handle _ := isInnermost handle
  call := enter
  edit := Watch.edit
  depth := Watch.running
  log := Watch.log
  consult := Watch.lines

def plainServices : Services Empty Watch := services enter nofun nofun

def callNext (own : ChainRun) (position : Nat) : (remaining : Nat) → Handler Watch
  | remaining, receiver, args, w =>
    let w' := w.note (.used own remaining w.stack[position]?)
    match w.stack[position]? with
    | none => (.fail (.impossible "chain handle used after its call returned") args, w')
    | some found =>
      match remaining with
      | 0 => (found.frame.target.invoke receiver args).run (plainServices enter) w'
      | index + 1 =>
        match found.frame.hooks[index]? with
        | none => (.fail .abandoned args, w')
        | some hook =>
          (around.behaviours.chain hook receiver args).run
            (services enter (fun _ => callNext own position index) fun _ => index == 0) w'

def runChain (hooks : List HookId) (target : Target) : Handler Watch :=
  fun receiver args w =>
    let own : ChainRun := ⟨w.started, ⟨hooks, target⟩⟩
    let (answer, left) :=
      callNext around enter own w.stack.length hooks.length receiver args (w.push own)
    (answer, left.pop own w.stack)

def runBefore (receiver : Option Value) :
    List HookId → List Value → Watch → (Except Error (Option Value) × List Value) × Watch
  | [], args, w => ((.ok none, args), w)
  | hook :: rest, args, w =>
    match (around.behaviours.before hook receiver args).run (plainServices enter) w with
    | ((.error error, args), w) => ((.error error, args), w)
    | ((.ok verdict, args), w) =>
      if verdict.prevent then ((.ok (some verdict.value), args), w)
      else runBefore receiver rest args w

def runAfter (receiver : Option Value) : List HookId → Answer → Watch → Answer × Watch
  | [], answer, w => (answer, w)
  | hook :: rest, answer, w =>
    match answer.result with
    | .error _ => (answer, w)
    | .ok value =>
      let (answer, w) :=
        (around.behaviours.after hook value receiver answer.args).run (plainServices enter) w
      runAfter receiver rest answer w

def runInner (method : Handle) (target : Target) : Handler Watch := fun receiver args w =>
  match (w.lists method).chain with
  | [] => (target.invoke receiver args).run (plainServices enter) w
  | hooks => runChain around enter hooks target receiver args w

def runCall (method : Handle) (target : Target) : Handler Watch := fun receiver args w =>
  let (before, w) := runBefore around enter receiver (w.lists method).before args w
  match before with
  | (.error error, args) => (.fail error args, w)
  | (.ok prevented, args) =>
    let (answer, w) : Answer × Watch := match prevented with
      | some value => (⟨.ok value, args⟩, w)
      | none => runInner around enter method target receiver args w
    match answer.result with
    | .error _ => (answer, w)
    | .ok _ => runAfter around enter receiver (w.lists method).after answer w

def call (fuel : Nat) (method : Handle) : Handler Watch := fun receiver args w =>
  match fuel with
  | 0 => (.fail .abandoned args, w)
  | fuel + 1 =>
    match around.target? method with
    | none =>
      (.fail (.impossible ("method " ++ method.text ++ " is not detoured")) args, w)
    | some target => runCall around (call fuel) method target receiver args w

def callTarget (fuel : Nat) (method : Handle) (target : Target) : Handler Watch :=
  runCall around (call around fuel) method target

end Watched

end Reroute
