import Reroute.Code.Instruction
import Reroute.Method
/-!
# Clones of methods

A clone is a second copy of a method's body whose tokens are read in a
scope of its own, so that the method keeps a way to run after its machine
code has been redirected. Cloning names everything that the body mentions
anew: the signature of its local variables, the types that its regions
catch, and the tokens inside its code, in this order. What was interned
before a failure stays in the scope.
-/

namespace Reroute

namespace Instruction

/-- The same instruction with its token named in the clone's scope. -/
def retoken (source : Scope) (i : Instruction) : Interning Instruction :=
  match i.operand with
  | .token t => do
    return { i with operand := .token (← Interning.resolve source i.kind t) }
  | _ => pure i

/-- The bytes of an instruction in the clone's scope. -/
def encodeIn (source : Scope) (i : Instruction) : Interning Bytes := do
  Interning.ofExcept (← i.retoken source).encode

/-- The bytes of the items of a stream in the clone's scope, up to the first
that does not decode or cannot be named. -/
def retokenItems (source : Scope) : List (Except Error Instruction) → Interning Bytes
  | [] => pure []
  | item :: rest => do
    let first ← (← Interning.ofExcept item).encodeIn source
    return first ++ (← retokenItems source rest)

/-- Bytecode with every token named in the clone's scope. -/
def retokenCode (source : Scope) (code : Bytes) : Interning Bytes :=
  retokenItems source (InstructionStream.ofCode code).rest.1

end Instruction

/-- A copy of a method's body in a scope of its own. -/
structure Clone where
  name : String
  code : Bytes
  handlers : Bytes
  localSignature : Bytes
  localToken : Token
  maxStack : UInt16
  initLocals : Bool
  /-- The parameters with the receiver in front. -/
  params : List ParamType
  ret : ParamType
  deriving Repr, DecidableEq

namespace Clone

/-- The signature of no local variables. -/
def noLocals : Bytes := [0x07, 0x00]

/-- The clone of a method in a scope. -/
def ofMethod (m : Method) : Interning Clone := do
  let body ← Interning.ofExcept m.cloneableBody
  let params ← Interning.ofExcept m.flatParams
  let localSignature ←
    if body.localSignature.isNull then pure noLocals
    else Interning.ofExcept (m.scope.signature body.localSignature)
  let localToken ← Interning.token (.signature localSignature)
  let handlers ← Section.encode m.scope body.regions
  let code ← Instruction.retokenCode m.scope body.code
  return { name := m.name, code, handlers, localSignature, localToken,
           maxStack := body.maxStack, initLocals := body.initLocals, params,
           ret := m.signature.ret }

def hasHandlers (c : Clone) : Bool := !c.handlers.isEmpty

/-- The clone as the bytes of a fat body. -/
def toBody (c : Clone) : Except Error Bytes :=
  Body.encodeFat c.code c.maxStack c.localToken c.initLocals c.handlers

/-- The parts of a clone and the size of its scope. -/
def debugText (c : Clone) (scopeSize : Nat) : String :=
  Text.record "ClonedMethod"
    [("name", Text.quote c.name), ("code_size", toString c.code.length),
     ("exception_section_size", toString c.handlers.length),
     ("local_sig_token", c.localToken.debugText), ("max_stack", toString c.maxStack.toNat),
     ("init_locals", Text.truth c.initLocals),
     ("params", Text.listed (c.params.map ParamType.debugText)),
     ("return_type", c.ret.debugText), ("scope_entries", toString scopeSize)]

end Clone

end Reroute
