import Reroute.Value
/-!
# Proxies

A proxy puts a handler behind a signature. It checks and converts what a
call brings, runs the handler on the converted arguments, and hands back
what the handler left: the references among the arguments are written back
in the type that they were declared with, and the result is converted to the
declared one. The handler works on a state of any type, and the proxy only
passes that state through.
-/

namespace Reroute

/-- What a call leaves: its result, and the arguments as they are then. -/
structure Answer where
  result : Except Error Value
  args : List Value

namespace Answer

/-- A failed call. -/
def fail (error : Error) (args : List Value) : Answer := ⟨.error error, args⟩

end Answer

/-- What answers a call: with a receiver or none, on arguments, in a state. -/
abbrev Handler (σ : Type) := Option Value → List Value → σ → Answer × σ

/-- Where the receiver of a handler comes from. -/
inductive Binding where
  /-- It is the first argument. -/
  | thisCall
  /-- It is part of the proxy. -/
  | embedded (receiver : Value)
  /-- There is none. -/
  | static
  deriving Repr, DecidableEq

namespace Binding

def debugText : Binding → String
  | .thisCall => "ThisCall"
  | .embedded receiver => Text.applied "Embedded" [receiver.debugText]
  | .static => "Static"

end Binding

/-- The form of a proxy: what calls look like, and where the receiver of its
handler comes from. -/
structure ProxyForm where
  signature : Signature
  binding : Binding
  deriving Repr, DecidableEq

namespace ProxyForm

/-- A form, unless its signature cannot be passed on. -/
def of (signature : Signature) (binding : Binding) : Except Error ProxyForm :=
  if signature.isVararg then
    .error (.unsupportedShape "variable argument lists cannot be proxied")
  else if signature.ret.byRef then
    .error (.unsupportedShape
      ("by-reference return type " ++ signature.ret.text ++ " cannot be proxied"))
  else .ok { signature, binding }

/-- The form of a proxy without a receiver. -/
def static (signature : Signature) : Except Error ProxyForm := of signature .static

/-- The form of a proxy that brings its receiver along. -/
def embedded (signature : Signature) (receiver : Value) : Except Error ProxyForm :=
  of signature (.embedded receiver)

/-- The form of a proxy whose first parameter is the receiver, which must be
one that can be boxed. -/
def thisCall (signature : Signature) : Except Error ProxyForm :=
  match signature.params with
  | [] => .error (.unsupportedShape "this-call proxy without receiver parameter")
  | receiver :: _ =>
    if receiver.byRef then
      .error (.unsupportedShape
        ("by-reference receiver " ++ receiver.text ++ " cannot be proxied"))
    else of signature .thisCall

def debugText (f : ProxyForm) : String :=
  Text.openRecord "Proxy"
    [("signature", f.signature.debugText), ("kind", f.binding.debugText)]

end ProxyForm

/-- A handler behind a form. -/
structure Proxy (σ : Type) extends ProxyForm where
  handler : Handler σ

namespace Proxy

variable {σ : Type}

/-- The arguments, each as its declared type. -/
def convertAll (params : List ParamType) (args : List Value) : Except Error (List Value) :=
  (args.zip params).mapM fun (arg, param) => arg.convert param.element

/-- Puts values into the references among the arguments, in their declared
types, up to the first that has no such form. -/
def writeBack : List ParamType → List Value → List Value → Except Error Unit × List Value
  | param :: params, value :: values, arg :: args =>
    if param.byRef then
      match value.convert param.element with
      | .error error => (.error error, arg :: args)
      | .ok converted =>
        let (result, rest) := writeBack params values args
        (result, converted :: rest)
    else
      let (result, rest) := writeBack params values args
      (result, arg :: rest)
  | _, _, args => (.ok (), args)

/-- A call of the handler on arguments that match parameters one by one. -/
def pass (p : Proxy σ) (receiver : Option Value) (params : List ParamType) (args : List Value)
    (s : σ) : Answer × σ :=
  match convertAll params args with
  | .error error => (.fail error args, s)
  | .ok boxed =>
    let (answer, s) := p.handler receiver boxed s
    match answer.result with
    | .error error => (.fail error args, s)
    | .ok value =>
      if answer.args.length = params.length then
        match writeBack params answer.args args with
        | (.error error, args) => (.fail error args, s)
        | (.ok (), args) => (⟨value.convert p.signature.ret.element, args⟩, s)
      else
        (.fail (.impossible
          s!"handler changed the argument count from {params.length} to {answer.args.length}")
          args, s)

/-- A call through the proxy. -/
def invoke (p : Proxy σ) (args : List Value) (s : σ) : Answer × σ :=
  let params := p.signature.params
  if args.length ≠ params.length then
    (.fail (.argumentCount params.length args.length) args, s)
  else
    match p.binding with
    | .thisCall =>
      match args with
      | [] => (.fail (.impossible "this-call proxy without receiver") args, s)
      | receiver :: rest =>
        let (answer, s) := p.pass (some receiver) (params.drop 1) rest s
        ({ answer with args := receiver :: answer.args }, s)
    | .embedded receiver => p.pass (some receiver) params args s
    | .static => p.pass none params args s

end Proxy

end Reroute
