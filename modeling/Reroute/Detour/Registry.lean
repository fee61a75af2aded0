import Reroute.Detour
import Reroute.Native.Call
import Reroute.Patch
/-!
# Installing detours

All detours of a process are kept in one registry, one to a method. A
request to detour a method first looks there. If it finds nothing, it takes
the lock that only one installer can hold, looks again, and then, holding
the lock, clones the method, compiles the clone, makes the proxy and its
stub, fills the reference from the proxy back to the detour, redirects the
entry point, and registers the detour. The back reference is filled before
the entry point is touched, because from then on other threads arrive at the
proxy.

A request is written as the steps it makes (`Request.step`), so that the
steps of several requests can be taken in any order; `Registry.detour` makes
the steps of one request.
-/

namespace Reroute

/-- What compiles clones. -/
structure Compiler where
  /-- Tells engines apart. -/
  id : Nat
  compile : Clone → Interner → Except Error Compiled

/-- What all requests share. -/
structure Registry where
  space : AddressSpace
  /-- The detours in the order in which they were registered. -/
  detours : List (Handle × Detour)
  /-- The forms of the proxies, by their contexts. -/
  forms : UInt64 → Option ProxyForm
  /-- The detours that proxies belong to, by their contexts. -/
  backs : UInt64 → Option Detour
  /-- How often each engine has compiled. -/
  compiles : Nat → Nat
  /-- The request that holds the installers' lock. -/
  holder : Option Nat

/-- A request to detour a method. -/
structure Request where
  method : Method
  compiler : Compiler
  options : PatchOptions

namespace Registry

/-- No method is detoured. -/
def empty (space : AddressSpace) : Registry :=
  { space, detours := [], forms := fun _ => none, backs := fun _ => none, compiles := fun _ => 0
    holder := none }

/-- The detour of a method. -/
def find? (s : Registry) (method : Handle) : Option Detour := s.detours.lookup method

/-- The lock is free again. -/
def release (s : Registry) : Registry := { s with holder := none }

/-- Counts a compilation. -/
def countCompile (s : Registry) (engine : Nat) : Registry :=
  { s with compiles := fun id => if id = engine then s.compiles id + 1 else s.compiles id }

/-- Registers a detour behind all others, in place of one that its method had. -/
def insert (s : Registry) (d : Detour) : Registry :=
  { s with
    detours := s.detours.filter (fun line => line.1 != d.method.handle) ++
      [(d.method.handle, d)] }

/-- Lets a proxy know its detour. -/
def link (s : Registry) (d : Detour) : Registry :=
  { s with backs := fun context => if context = d.entry then some d else s.backs context }

/-- What a call can reach. -/
def surroundings (s : Registry) (behaviours : Behaviours) : Surroundings where
  target? method := (s.find? method).map Detour.target
  behaviours := behaviours

/-- The proxy with a context: its calls are those of its detour. -/
def proxy? (s : Registry) (behaviours : Behaviours) (fuel : Nat) (context : UInt64) :
    Option (Proxy Thread) :=
  (s.forms context).map fun form =>
    { toProxyForm := form
      handler :=
        match s.backs context with
        | some d =>
          Pipeline.callTarget (s.surroundings behaviours) fuel d.method.handle d.target
        | none => fun _ args t =>
          (.fail (.impossible "proxy called before its detour was registered") args, t) }

end Registry

/-- How far a request has got. From `clone` to `insert` it holds the lock. -/
inductive Phase where
  | lookup
  | check
  | acquire
  | clone
  | compile (clone : Clone) (scope : Interner)
  | form (clone : Clone) (scope : Interner) (compiled : Compiled)
  | stub (clone : Clone) (scope : Interner) (compiled : Compiled) (form : ProxyForm)
  | link (d : Detour)
  | patch (d : Detour)
  | insert (d : Detour)
  /-- Another request was faster. -/
  | retry (method : Handle)
  | done (result : Except Error Detour)

namespace Request

/-- What keeps a method from being detoured before anything is tried. -/
def check (r : Request) : Except Error Unit := do
  let _ ← r.method.cloneableBody
  if r.method.signature.ret.byRef then
    .error (.unsupportedShape
      (r.method.text ++ ": by-reference return type " ++ r.method.signature.ret.text))
  else if r.method.entryPoint = 0 then
    .error (.unsupportedShape (r.method.text ++ ": no compiled entry point"))
  else .ok ()

/-- Where a failed installation goes: a request that another one has beaten
looks the detour up. -/
def failing (error : Error) : Phase :=
  match error with
  | .alreadyDetoured method => .retry method
  | error => .done (.error error)

/-- One step of a request. There is none while another request holds the
lock, and none when the request is done. -/
def step (id : Nat) (r : Request) (phase : Phase) (s : Registry) : Option (Phase × Registry) :=
  match phase with
  | .lookup =>
    match s.find? r.method.handle with
    | some d => some (.done (.ok d), s)
    | none => some (.check, s)
  | .check =>
    match r.check with
    | .ok () => some (.acquire, s)
    | .error error => some (failing error, s)
  | .acquire =>
    match s.holder with
    | some _ => none
    | none =>
      match s.find? r.method.handle with
      | some _ => some (failing (.alreadyDetoured r.method.handle), s)
      | none => some (.clone, { s with holder := some id })
  | .clone =>
    match Clone.ofMethod r.method .empty with
    | (.ok clone, scope) => some (.compile clone scope, s)
    | (.error error, _) => some (failing error, s.release)
  | .compile clone scope =>
    let s := s.countCompile r.compiler.id
    match r.compiler.compile clone scope with
    | .ok compiled => some (.form clone scope compiled, s)
    | .error error => some (failing error, s.release)
  | .form clone scope compiled =>
    match Detour.formOf r.method with
    | .ok form => some (.stub clone scope compiled form, s)
    | .error error => some (failing error, s.release)
  | .stub clone scope compiled form =>
    match Native.emitStub form s.space with
    | .ok (entry, space) =>
      let d : Detour := { method := r.method, clone, scope, compiled, form, entry }
      some (.link d,
        { s with
          space
          forms := fun context => if context = entry then some form else s.forms context })
    | .error error => some (failing error, s.release)
  | .link d => some (.patch d, s.link d)
  | .patch d =>
    match Patch.run .x64 r.method.entryPoint d.entry r.options s.space with
    | (.ok _, space) => some (.insert d, { s with space })
    | (.error error, space) => some (failing error, { s with space }.release)
  | .insert d => some (.done (.ok d), (s.insert d).release)
  | .retry method =>
    match s.find? method with
    | some d => some (.done (.ok d), s)
    | none =>
      some (.done (.error (.impossible
        ("detour of " ++ method.text ++ " vanished from the registry"))), s)
  | .done _ => none

/-- The most steps that a request makes. -/
def maxSteps : Nat := 10

/-- Steps of one request that nobody else interrupts. -/
def runAlone (id : Nat) (r : Request) : (fuel : Nat) → Phase → Registry → Phase × Registry
  | 0, phase, s => (phase, s)
  | fuel + 1, phase, s =>
    match r.step id phase s with
    | some (phase, s) => runAlone id r fuel phase s
    | none => (phase, s)

end Request

/-- Requests under way, each with how far it has got. -/
abbrev Requests := List (Request × Phase)

namespace Requests

/-- One step of the request at a position, if it can make one. -/
def stepAt (index : Nat) (requests : Requests) (s : Registry) : Requests × Registry :=
  match requests[index]? with
  | none => (requests, s)
  | some (r, phase) =>
    match r.step index phase s with
    | some (phase, s) => (requests.set index (r, phase), s)
    | none => (requests, s)

/-- The steps of a schedule, which names a request for each. -/
def run (schedule : List Nat) (requests : Requests) (s : Registry) : Requests × Registry :=
  schedule.foldl (fun (requests, s) index => stepAt index requests s) (requests, s)

/-- A schedule that goes round all requests again and again, often enough for
each to finish even if they get the lock one after the other. -/
def roundRobin (count : Nat) : List Nat :=
  (List.replicate (Request.maxSteps * (count + 1)) (List.range count)).flatten

end Requests

namespace Registry

/-- Detours a method, or finds the detour that it has. -/
def detour (r : Request) (s : Registry) : Except Error Detour × Registry :=
  match r.runAlone 0 Request.maxSteps .lookup s with
  | (.done result, s) => (result, s)
  | (_, s) => (.error .abandoned, s)

/-- The same request made by several threads at once. -/
def race (r : Request) (count : Nat) (s : Registry) : List (Except Error Detour) × Registry :=
  let (requests, s) :=
    Requests.run (Requests.roundRobin count) (List.replicate count (r, .lookup)) s
  (requests.filterMap fun (_, phase) =>
    match phase with
    | .done result => some result
    | _ => none, s)

end Registry

end Reroute
