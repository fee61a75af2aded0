import Reroute.Clone
import Reroute.Hook.Pipeline
/-!
# Detours

A detour of a method is its clone, the clone compiled, and the proxy that
the method's entry point leads to. Whatever still wants the method as it was
gets it from the clone.
-/

namespace Reroute

/-- A detoured method. -/
structure Detour where
  method : Method
  clone : Clone
  scope : Interner
  compiled : Compiled
  form : ProxyForm
  /-- Where the stub of the proxy stands. -/
  entry : UInt64

namespace Detour

/-- The detour as calls see it. -/
def target (d : Detour) : Target := .ofCompiled d.method.isInstance d.compiled

/-- Calls the method as it was, without its hooks. -/
def invokeCloned {σ : Type} (d : Detour) (services : Services Empty σ) : Handler σ :=
  fun receiver args => (d.target.invoke receiver args).run services

/-- The form of a proxy that calls the clone under another signature. -/
def wrapForm (d : Detour) (signature : Signature) : Except Error ProxyForm :=
  if signature.params.length ≠ d.clone.params.length then
    .error (.argumentCount d.clone.params.length signature.params.length)
  else ProxyForm.static signature

/-- A proxy that calls the clone under another signature. -/
def wrap {σ : Type} (d : Detour) (signature : Signature) : Except Error (Proxy σ) := do
  return { toProxyForm := ← d.wrapForm signature, handler := fun _ args s => (d.compiled args, s) }

/-- The form of the proxy that stands for a method: the receiver of an
instance method is its first parameter. -/
def formOf (m : Method) : Except Error ProxyForm := do
  if m.isInstance then
    ProxyForm.thisCall (.plain (← m.flatParams) m.signature.ret)
  else
    ProxyForm.static m.signature

def debugText (d : Detour) : String :=
  Text.openRecord "MethodDetour"
    [("target", Text.quote d.method.text), ("handle", d.method.handle.debugText),
     ("cloned", d.clone.debugText d.scope.size),
     ("proxy_entry", "0x" ++ Text.hex d.entry.toNat)]

end Detour

end Reroute
