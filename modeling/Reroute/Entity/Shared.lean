import Reroute.Entity.Interner
/-!
# A scope that several callers share

Several callers may intern into one scope at once. A call first looks its
entry up. If it misses, it takes the lock of the entry, looks again, appends
the entry and records its token. The lock keeps out only calls for an equal
entry; the steps of all others may come in between, also between an append
and its record. `InternCall.step` is one step of a call, and
`Interner.intern` is what the steps of a call do that nobody interrupts.
-/

namespace Reroute

/-- How far a call has got. From `check` to `record` it holds the lock of its
entry. -/
inductive InternPhase where
  | lookup
  | acquire
  | check
  | append
  | record (index : Nat)
  | done (result : Except Error Token)

/-- A call that interns an entry. -/
structure InternCall where
  entry : Entry
  phase : InternPhase

/-- A scope and the entries whose locks are held. -/
structure SharedInterner where
  scope : Interner
  locked : List Entry

namespace SharedInterner

/-- A scope whose locks are all free. -/
def ofScope (scope : Interner) : SharedInterner := ⟨scope, []⟩

/-- The lock of an entry is held. -/
def lock (entry : Entry) (s : SharedInterner) : SharedInterner :=
  { s with locked := entry :: s.locked }

/-- The lock of an entry is free again. -/
def release (entry : Entry) (s : SharedInterner) : SharedInterner :=
  { s with locked := s.locked.erase entry }

end SharedInterner

namespace InternCall

/-- A call that has not made a step. -/
def start (entry : Entry) : InternCall := ⟨entry, .lookup⟩

/-- What a call came back with, if it did. -/
def result? (c : InternCall) : Option (Except Error Token) :=
  match c.phase with
  | .done result => some result
  | _ => none

/-- The phase behind a look-up: the call is done or goes on. -/
def found (token? : Option Token) (otherwise : InternPhase) : InternPhase :=
  match token? with
  | some token => .done (.ok token)
  | none => otherwise

/-- One step of a call. There is none while another call holds the lock of an
equal entry, and none when the call is done. -/
def step (c : InternCall) (s : SharedInterner) : Option (InternPhase × SharedInterner) :=
  match c.phase with
  | .lookup => some (found (s.scope.lookup? c.entry) .acquire, s)
  | .acquire => if c.entry ∈ s.locked then none else some (.check, s.lock c.entry)
  | .check =>
    match s.scope.lookup? c.entry with
    | some token => some (.done (.ok token), s.release c.entry)
    | none => some (.append, s)
  | .append =>
    let (index, scope) := s.scope.append c.entry
    some (.record index, { s with scope })
  | .record index =>
    match Interner.tokenAt c.entry index with
    | .ok token =>
      some (.done (.ok token), { s with scope := s.scope.record c.entry token }.release c.entry)
    | .error error => some (.done (.error error), s.release c.entry)
  | .done _ => none

end InternCall

/-- Calls under way. -/
abbrev InternCalls := List InternCall

namespace InternCalls

/-- One step of the call at a position, if it can make one. -/
def stepAt (index : Nat) (calls : InternCalls) (s : SharedInterner) :
    InternCalls × SharedInterner :=
  match calls[index]? with
  | none => (calls, s)
  | some call =>
    match call.step s with
    | some (phase, s) => (calls.set index { call with phase }, s)
    | none => (calls, s)

/-- The steps of a schedule, which names a call for each. -/
def run (schedule : List Nat) (calls : InternCalls) (s : SharedInterner) :
    InternCalls × SharedInterner :=
  schedule.foldl (fun (calls, s) index => stepAt index calls s) (calls, s)

end InternCalls

end Reroute
