import Reroute.Error
/-!
# Members of types

Types, methods and fields are known by the handle that the runtime gives
them; their names are for display. A method or field that a type declares
carries that type along, because a generic type gives its members an
identity of their own.
-/

namespace Reroute

/-- A type. -/
structure TypeRef where
  handle : Handle
  name : String
  isGeneric : Bool
  isValueType : Bool
  deriving Repr, DecidableEq

namespace TypeRef

def debugText (t : TypeRef) : String :=
  Text.record "TypeRef"
    [("handle", t.handle.debugText), ("name", Text.quote t.name),
     ("is_generic", Text.truth t.isGeneric), ("is_value_type", Text.truth t.isValueType)]

end TypeRef

/-- A method, constructor or dynamic method. -/
structure MethodRef where
  handle : Handle
  name : String
  declaring : Option TypeRef
  isConstructor : Bool
  isDynamic : Bool
  deriving Repr, DecidableEq

/-- A field. -/
structure FieldRef where
  handle : Handle
  name : String
  declaring : Option TypeRef
  deriving Repr, DecidableEq

/-- Whether an owner is a generic type. -/
def hasGenericOwner (owner : Option TypeRef) : Bool := owner.any TypeRef.isGeneric

/-- What a member token can name. -/
inductive Member where
  | method (m : MethodRef)
  | field (f : FieldRef)
  | type (t : TypeRef)
  deriving Repr, DecidableEq

end Reroute
