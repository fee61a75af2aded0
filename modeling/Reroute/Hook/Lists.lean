import Reroute.Error
/-!
# Hook lists

A detour keeps three lists of hooks: those that run before the call, those
that are wrapped around it, and those that run after it. Hooks are known by
name. A hook may be registered before or after a call as often as one
likes, but wrapped around it only once. Removing takes the registration that
was made last. Every edit makes new lists, so a list that a call has taken
does not change under it.
-/

namespace Reroute

/-- The name of a hook. -/
abbrev HookId := String

/-- When a hook runs. -/
inductive HookPhase where
  | before
  | chain
  | after
  deriving Repr, DecidableEq

namespace HookPhase

def all : List HookPhase := [.before, .chain, .after]

def name : HookPhase → String
  | .before => "before"
  | .chain => "chain"
  | .after => "after"

end HookPhase

/-- The hooks of a detour in registration order. -/
structure HookLists where
  before : List HookId
  chain : List HookId
  after : List HookId
  deriving Repr, DecidableEq

namespace HookLists

def empty : HookLists := ⟨[], [], []⟩

def isEmpty (h : HookLists) : Bool := h.before.isEmpty && h.chain.isEmpty && h.after.isEmpty

/-- The list of a phase. -/
def get (h : HookLists) : HookPhase → List HookId
  | .before => h.before
  | .chain => h.chain
  | .after => h.after

/-- The lists with another list for a phase. -/
def set (h : HookLists) (phase : HookPhase) (list : List HookId) : HookLists :=
  match phase with
  | .before => { h with before := list }
  | .chain => { h with chain := list }
  | .after => { h with after := list }

/-- A list without the last occurrence of a hook. -/
def removeLast (hook : HookId) (list : List HookId) : List HookId :=
  (list.reverse.erase hook).reverse

/-- Registers a hook behind all others; refused if it is wrapped around the
call already. -/
def add (h : HookLists) (phase : HookPhase) (hook : HookId) : Bool × HookLists :=
  if phase = .chain ∧ hook ∈ h.chain then (false, h)
  else (true, h.set phase (h.get phase ++ [hook]))

/-- Takes back the last registration of a hook, if there is one. -/
def remove (h : HookLists) (phase : HookPhase) (hook : HookId) : Bool × HookLists :=
  if hook ∈ h.get phase then (true, h.set phase (removeLast hook (h.get phase)))
  else (false, h)

end HookLists

/-- A change of a detour's hooks. -/
inductive HookEdit where
  | add (phase : HookPhase) (hook : HookId)
  | remove (phase : HookPhase) (hook : HookId)
  deriving Repr, DecidableEq

/-- The lists behind a change, and whether it was made. -/
def HookEdit.apply (h : HookLists) : HookEdit → Bool × HookLists
  | .add phase hook => h.add phase hook
  | .remove phase hook => h.remove phase hook

end Reroute
