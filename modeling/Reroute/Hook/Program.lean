import Reroute.Hook.Lists
import Reroute.Proxy
/-!
# What a hook does

A hook is code of the host's own. All that it can do to a call is written
down as a tree of operations: go on with the next hook, call a detoured
method, edit the hooks of a method, look at the chain, write a line to a
log, read the log. Each operation is followed by whatever the hook does with
its outcome, so every behaviour of a hook that ends is such a tree; what a
hook wants to remember it writes to the log. A compiled clone is written
down in the same way.

A hook that is wrapped around a call can go on only through a handle, which
is what `ν` stands for: hooks that run before or after a call have none.
-/

namespace Reroute

/-- A hook's behaviour, which ends with a value. -/
inductive Program (ν α : Type) where
  | done (value : α)
  /-- Goes on with the next hook, or with the clone behind the last. -/
  | next (handle : ν) (receiver : Option Value) (args : List Value) (resume : Answer → Program ν α)
  /-- Asks whether nothing but the clone is behind a handle. -/
  | isInnermost (handle : ν) (resume : Bool → Program ν α)
  /-- Calls a detoured method with its hooks. -/
  | call (method : Handle) (receiver : Option Value) (args : List Value)
      (resume : Answer → Program ν α)
  | edit (method : Handle) (change : HookEdit) (resume : Bool → Program ν α)
  /-- Asks how many chains are running. -/
  | depth (resume : Nat → Program ν α)
  | log (line : String) (resume : Program ν α)
  /-- Reads the lines that were written so far. -/
  | consult (resume : List String → Program ν α)

/-- How the operations of a program are carried out in a state. -/
structure Services (ν σ : Type) where
  next : ν → Handler σ
  isInnermost : ν → σ → Bool
  call : Handle → Handler σ
  edit : Handle → HookEdit → σ → Bool × σ
  depth : σ → Nat
  log : String → σ → σ
  consult : σ → List String

namespace Program

variable {ν α β σ : Type}

/-- A program that goes on where another ends. -/
def bind : Program ν α → (α → Program ν β) → Program ν β
  | .done value, f => f value
  | .next handle receiver args resume, f =>
    .next handle receiver args fun answer => (resume answer).bind f
  | .isInnermost handle resume, f => .isInnermost handle fun b => (resume b).bind f
  | .call method receiver args resume, f =>
    .call method receiver args fun answer => (resume answer).bind f
  | .edit method change resume, f => .edit method change fun b => (resume b).bind f
  | .depth resume, f => .depth fun n => (resume n).bind f
  | .log line resume, f => .log line (resume.bind f)
  | .consult resume, f => .consult fun lines => (resume lines).bind f

/-- Carries a program out. -/
def run (services : Services ν σ) : Program ν α → σ → α × σ
  | .done value, s => (value, s)
  | .next handle receiver args resume, s =>
    let (answer, s) := services.next handle receiver args s
    (resume answer).run services s
  | .isInnermost handle resume, s => (resume (services.isInnermost handle s)).run services s
  | .call method receiver args resume, s =>
    let (answer, s) := services.call method receiver args s
    (resume answer).run services s
  | .edit method change resume, s =>
    let (made, s) := services.edit method change s
    (resume made).run services s
  | .depth resume, s => (resume (services.depth s)).run services s
  | .log line resume, s => resume.run services (services.log line s)
  | .consult resume, s => (resume (services.consult s)).run services s

end Program

/-- What a hook before a call decides: to let it go on, or to answer it with
a value of its own. -/
structure Verdict where
  value : Value
  prevent : Bool
  deriving Repr, DecidableEq

namespace Verdict

/-- The call goes on. -/
def proceed : Verdict := ⟨.null, false⟩

/-- The call is answered. -/
def answer (value : Value) : Verdict := ⟨value, true⟩

end Verdict

/-- What each hook does, by its name. -/
structure Behaviours where
  before : HookId → Option Value → List Value → Program Empty (Except Error Verdict × List Value)
  chain : HookId → Option Value → List Value → Program Unit Answer
  after : HookId → Value → Option Value → List Value → Program Empty Answer

end Reroute
