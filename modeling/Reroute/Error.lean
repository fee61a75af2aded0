import Reroute.Code.Operand
import Reroute.Entity.Signature
/-!
# Errors

One type of causes for the whole library. Malformed input has causes of its
own (`Defect`), because every reader and writer of a binary format reports
through them. The wording is in `Defect.message` and `Error.message` only.
-/

namespace Reroute

/-- The identity that the runtime gives to a type, method or field. -/
structure Handle where
  value : UInt64
  deriving Repr, DecidableEq, Inhabited

namespace Handle

def text (h : Handle) : String := "0x" ++ Text.hex h.value.toNat

def debugText (h : Handle) : String := Text.applied "RuntimeHandle" [toString h.value.toNat]

end Handle

/-- A place in a text file. -/
structure Place where
  file : String
  line : Nat
  deriving Repr, DecidableEq

/-- What is wrong with a piece of bytecode, a body or a section. -/
inductive Defect where
  | truncatedInstruction (offset : Nat)
  | unknownLead (first second : UInt8) (offset : Nat)
  | unknownTwoByte (second : UInt8) (offset : Nat)
  | unknownOneByte (byte : UInt8) (offset : Nat)
  | reserved (lead opcode : UInt8) (offset : Nat)
  | switchTooLong (offset count remaining : Nat)
  | branchBeforeStart (delta : Int) (next : Nat)
  | noSuchOpcode (lead opcode : UInt8) (mnemonic : String)
  | mnemonicDiffers (lead opcode : UInt8) (expected found : String)
  | kindDiffers (mnemonic : String) (expected found : OperandKind)
  | operandDiffers (offset : Nat) (mnemonic : String) (expected : OperandKind) (found : Operand)
  | tooManyTargets (count : Nat)
  | emptyBody
  | shortHeader (declared needed : Nat)
  | unknownFormat (first : UInt8)
  | truncatedBody (size position : Nat)
  | codeTooLarge (size : Nat)
  | truncatedSections (start : Nat)
  | sectionSize (start size : Nat)
  | truncatedSection (start : Nat)
  /-- A fault that another party describes. -/
  | described (text : String)
  deriving Repr, DecidableEq

namespace Defect

def message : Defect → String
  | .truncatedInstruction offset => s!"Truncated instruction at offset {offset}"
  | .unknownLead first second offset =>
    "Invalid opcode " ++ Text.hexCapital 2 first.toNat ++ " " ++ Text.hexCapital 2 second.toNat ++
      " at offset " ++ toString offset
  | .unknownTwoByte second offset =>
    "Invalid opcode FE " ++ Text.hexCapital 2 second.toNat ++ " at offset " ++ toString offset
  | .unknownOneByte byte offset =>
    "Invalid opcode " ++ Text.hexCapital 2 byte.toNat ++ " at offset " ++ toString offset
  | .reserved lead opcode offset =>
    "Reserved opcode " ++ Text.hexCapital 2 lead.toNat ++ Text.hexCapital 2 opcode.toNat ++
      " at offset " ++ toString offset
  | .switchTooLong offset count remaining =>
    s!"switch at offset {offset} declares {count} targets, buffer holds {remaining} bytes"
  | .branchBeforeStart delta next =>
    s!"Branch target {delta} bytes from offset {next} lies before the stream"
  | .noSuchOpcode lead opcode mnemonic =>
    "Invalid opcode " ++ Text.hexCapital 2 lead.toNat ++ Text.hexCapital 2 opcode.toNat ++
      " for '" ++ mnemonic ++ "'"
  | .mnemonicDiffers lead opcode expected found =>
    "Opcode " ++ Text.hexCapital 2 lead.toNat ++ Text.hexCapital 2 opcode.toNat ++ " is '" ++
      expected ++ "', instruction says '" ++ found ++ "'"
  | .kindDiffers mnemonic expected found =>
    "'" ++ mnemonic ++ "' takes " ++ expected.name ++ ", instruction declares " ++ found.name
  | .operandDiffers offset mnemonic expected found =>
    Text.label offset ++ ": '" ++ mnemonic ++ "' expects a " ++ expected.name ++
      " operand, found " ++ found.debugText
  | .tooManyTargets count => s!"Too many switch targets: {count}"
  | .emptyBody => "Provided data for body parsing is empty"
  | .shortHeader declared needed => s!"Fat header declares {declared} bytes, needs {needed}"
  | .unknownFormat first =>
    "MethodHeader is neither FAT nor TINY - " ++ toString first.toNat
  | .truncatedBody size position =>
    s!"Method body of {size} bytes is truncated at {position}"
  | .codeTooLarge size => s!"Code of {size} bytes is too large"
  | .truncatedSections start => s!"Truncated exception section after {start}"
  | .sectionSize start size => s!"Exception section at {start} has invalid size {size}"
  | .truncatedSection start => s!"Exception section at {start} is truncated"
  | .described text => text

end Defect

/-- Why an operation failed. -/
inductive Error where
  /-- Bytes that are no bytecode, body or section, or an instruction without
  a form; with the place that noticed it, if that is known. -/
  | malformed (defect : Defect) (place : Option Place)
  | outOfBounds
  /-- A method that cannot be cloned, proxied or detoured. -/
  | unsupportedShape (reason : String)
  | invalidExceptionData (reason : String)
  | unsupportedPlatform (reason : String)
  | alreadyDetoured (handle : Handle)
  | unresolvedToken (token : Token)
  /-- A value that has no form as the declared type. -/
  | typeMismatch (expected : ElementType) (found : String)
  | argumentCount (expected found : Nat)
  /-- The system refused to map memory or to change its protection. -/
  | protectionRefused (reason : String)
  /-- Something that callers promise never to happen. -/
  | impossible (reason : String)
  /-- An error of a hook's own. -/
  | hook (text : String)
  | other (text : String)
  /-- A call that never came back with an answer: its handler broke down, or
  it ran on without end. -/
  | abandoned
  deriving Repr, DecidableEq

namespace Error

/-- The full text of an error. -/
def message : Error → String
  | .malformed defect place =>
    let place := match place with
      | some place => place.file ++ ":" ++ toString place.line ++ ": "
      | none => ""
    "Malformed bytecode - " ++ place ++ defect.message
  | .outOfBounds => "Out of Bound read would have occurred!"
  | .unsupportedShape reason => "Unsupported method shape - " ++ reason
  | .invalidExceptionData reason => "Invalid exception data - " ++ reason
  | .unsupportedPlatform reason => "Platform not supported - " ++ reason
  | .alreadyDetoured handle => "Method " ++ handle.text ++ " is already detoured"
  | .unresolvedToken token => "Failed to resolve token - " ++ token.text
  | .typeMismatch expected found =>
    "Type mismatch - expected " ++ expected.text ++ ", found " ++ found
  | .argumentCount expected found =>
    s!"Argument count mismatch - expected {expected}, found {found}"
  | .protectionRefused reason => "Memory protection failed - " ++ reason
  | .impossible reason => "Internal invariant violated - " ++ reason
  | .hook text => text
  | .other text => text
  | .abandoned => "proxy handler panicked"

/-- The name of an error's kind. -/
def kind : Error → String
  | .malformed _ _ => "MalformedBytecode"
  | .outOfBounds => "OutOfBounds"
  | .unsupportedShape _ => "UnsupportedMethodShape"
  | .invalidExceptionData _ => "InvalidExceptionData"
  | .unsupportedPlatform _ => "PlatformNotSupported"
  | .alreadyDetoured _ => "AlreadyDetoured"
  | .unresolvedToken _ => "UnresolvedToken"
  | .typeMismatch _ _ => "TypeMismatch"
  | .argumentCount _ _ => "ArgumentCount"
  | .protectionRefused _ => "MemoryProtection"
  | .impossible _ => "Impossible"
  | .hook _ => "Hook"
  | .other _ => "Error"
  | .abandoned => "Abandoned"

/-- The error for a defect that the library itself notices. -/
def ofDefect (defect : Defect) : Error := .malformed defect none

/-- Whether an error says that its input is malformed. -/
def isMalformed : Error → Bool
  | .malformed _ _ => true
  | _ => false

end Error

end Reroute
