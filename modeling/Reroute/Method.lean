import Reroute.Body
/-!
# Methods

What the library is told about a method: its identity and signature, the
scope that its tokens are read in, its body if it has one, and where its
machine code starts. An instance method has a receiver, which counts as its
first parameter wherever parameters are listed flat.
-/

namespace Reroute

/-- A method as the host describes it. -/
structure Method where
  name : String
  handle : Handle
  isStatic : Bool
  declaring : Option TypeRef
  scope : Scope
  signature : Signature
  isGenericDefinition : Bool
  isDynamic : Bool
  body : Option Body
  /-- The address of the compiled code, or zero if there is none. -/
  entryPoint : UInt64

namespace Method

def isInstance (m : Method) : Bool := !m.isStatic

/-- The name with its type in front. -/
def text (m : Method) : String :=
  match m.declaring with
  | some owner => owner.name ++ "::" ++ m.name
  | none => m.name

/-- The type of the receiver: value types are passed by reference and all
else as an object. Static methods have none. -/
def receiver? (m : Method) : Except Error (Option ParamType) :=
  if m.isStatic then .ok none
  else
    match m.declaring with
    | some owner =>
      .ok (some (if owner.isValueType then .reference .valueType else .plain .object))
    | none =>
      .error (.impossible ("instance method '" ++ m.name ++ "' has no declaring type"))

/-- The parameters with the receiver in front. -/
def flatParams (m : Method) : Except Error (List ParamType) := do
  return (← m.receiver?).toList ++ m.signature.params

/-- What keeps a method from being cloned, if anything does. -/
def obstacle? (m : Method) : Option String :=
  if m.isDynamic then some "dynamic methods cannot be cloned"
  else if m.isGenericDefinition || m.signature.isGeneric then
    some "generic method definitions cannot be cloned"
  else if m.signature.isVararg then some "variable argument lists are not supported"
  else if m.body.isNone then some "method has no CIL body"
  else none

/-- The body of a method that can be cloned. -/
def cloneableBody (m : Method) : Except Error Body :=
  match m.obstacle?, m.body with
  | none, some body => .ok body
  | some reason, _ => .error (.unsupportedShape (m.name ++ ": " ++ reason))
  | none, none => .error (.unsupportedShape (m.name ++ ": method has no CIL body"))

def debugText (m : Method) : String :=
  Text.openRecord "MethodDescriptor"
    [("name", Text.quote m.name), ("handle", m.handle.debugText),
     ("is_static", Text.truth m.isStatic),
     ("declaring_type", Text.optional (m.declaring.map TypeRef.debugText)),
     ("signature", m.signature.debugText),
     ("is_generic_definition", Text.truth m.isGenericDefinition),
     ("is_dynamic", Text.truth m.isDynamic), ("has_body", Text.truth m.body.isSome),
     ("entry_point", "0x" ++ Text.hex m.entryPoint.toNat)]

end Method

end Reroute
