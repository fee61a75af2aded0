import Reroute.Entity.Signature
/-!
# Where native code passes arguments

Two calling conventions are known. System V passes integers and addresses
in six registers and floats in eight, each class in its own order, and what
no longer fits its class on the stack, eight bytes apiece. Cdecl passes
everything on the stack, in eight bytes if the value is that wide and in
four otherwise. Register numbers count the integer registers first.
-/

namespace Reroute

/-- A calling convention. -/
inductive Abi where
  | sysV
  | cdecl
  deriving Repr, DecidableEq

/-- Where an argument is passed. -/
inductive Slot where
  | register (index : Nat)
  /-- Bytes of the argument area on the stack. -/
  | stack (offset size : Nat)
  deriving Repr, DecidableEq

namespace Abi

/-- The convention of the host. -/
def host : Abi := .sysV

def name : Abi → String
  | .sysV => "SysV"
  | .cdecl => "Cdecl"

/-- The integer registers of System V. -/
def integerRegisters : Nat := 6

/-- The floating-point registers of System V. -/
def floatRegisters : Nat := 8

/-- Whether an argument travels with the floats; a reference never does. -/
def isFloating (p : ParamType) : Bool := !p.byRef && p.element.isFloat

/-- System V, with the registers of each class and the stack bytes that are
taken already. -/
def classifySysV (integers floats stack : Nat) : List ParamType → List Slot
  | [] => []
  | p :: rest =>
    if isFloating p ∧ floats < floatRegisters then
      .register (integerRegisters + floats) :: classifySysV integers (floats + 1) stack rest
    else if ¬isFloating p ∧ integers < integerRegisters then
      .register integers :: classifySysV (integers + 1) floats stack rest
    else
      .stack stack 8 :: classifySysV integers floats (stack + 8) rest

/-- The stack bytes of an argument under cdecl. -/
def cdeclSize (p : ParamType) : Nat := if !p.byRef && p.element.isWide then 8 else 4

/-- Cdecl, with the stack bytes that are taken already. -/
def classifyCdecl (stack : Nat) : List ParamType → List Slot
  | [] => []
  | p :: rest => .stack stack (cdeclSize p) :: classifyCdecl (stack + cdeclSize p) rest

/-- The slot of each parameter. -/
def classify : Abi → List ParamType → List Slot
  | .sysV, params => classifySysV 0 0 0 params
  | .cdecl, params => classifyCdecl 0 params

end Abi

end Reroute
