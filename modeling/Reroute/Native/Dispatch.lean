import Reroute.Machine.Memory
import Reroute.Native.Slot
import Reroute.Proxy
/-!
# Native calls of proxies

A native caller leaves the words of its arguments in registers and on the
stack. The dispatcher reads the word of each parameter from its slot; a
reference is the address of storage of its element type, which is read
before the call and written after it, as many bytes as the type has. What
goes wrong cannot be returned to a native caller: the result is zero then,
and the error waits for someone to ask for it.
-/

namespace Reroute

namespace Native

/-- The bytes that a reference to an element type points at. -/
def storageSize : ElementType → Nat
  | .boolean | .i1 | .u1 => 1
  | .char | .i2 | .u2 => 2
  | .i4 | .u4 | .r4 => 4
  | .i8 | .u8 | .r8 => 8
  | .void => 0
  | .string | .ptr | .valueType | .classType | .i | .u | .fnPtr | .object | .szArray => 8

/-- The little-endian word of some bytes of memory. -/
def load (m : Memory) (address : UInt64) (size : Nat) : UInt64 :=
  UInt64.ofNat (Bytes.toNat (m.read address size))

/-- The memory with the low bytes of a word stored. -/
def save (m : Memory) (address : UInt64) (size : Nat) (word : UInt64) : Memory :=
  m.write address (Bytes.ofNat size word.toNat)

/-- Refuses by-value structures, which take more than a word. -/
def checkScalar (s : Signature) : Except Error Unit :=
  let isStruct (p : ParamType) : Bool := !p.byRef && p.element == .valueType
  match s.params.findIdx? isStruct with
  | some position =>
    .error (.unsupportedShape s!"parameter {position} of {s.text} is a by-value struct")
  | none =>
    if isStruct s.ret then .error (.unsupportedShape (s.text ++ " returns a struct by value"))
    else .ok ()

/-- The word in a slot, given where the spilled registers and the caller's
stack arguments lie. -/
def readSlot (m : Memory) (registers stack : UInt64) : Slot → UInt64
  | .register index => load m (registers + UInt64.ofNat (8 * index)) 8
  | .stack offset size =>
    load m (stack + UInt64.ofNat offset) (if size = 4 then 4 else 8)

/-- The address of a reference's storage; null has none. -/
def pointee (word : UInt64) : Except Error UInt64 :=
  if word = 0 then .error (.other "null by-reference argument") else .ok word

/-- The boxed value of an argument with a given word. -/
def box (m : Memory) (p : ParamType) (word : UInt64) : Except Error Value :=
  if p.byRef then do
    let storage ← pointee word
    return .ofBits p.element (load m storage (storageSize p.element))
  else
    return .ofBits p.element word

/-- Stores the references among the arguments, up to the first without a
native form. -/
def storeBack : List ParamType → List UInt64 → List Value → Memory → Except Error Unit × Memory
  | param :: params, word :: words, value :: values, m =>
    if param.byRef then
      match pointee word, value.bits param.element with
      | .error error, _ | _, .error error => (.error error, m)
      | .ok storage, .ok bits =>
        storeBack params words values (save m storage (storageSize param.element) bits)
    else storeBack params words values m
  | _, _, _, m => (.ok (), m)

variable {σ : Type}

/-- A native call: the word of its result, the memory behind it and the
handler's state. -/
def dispatch (p : Proxy σ) (registers stack : UInt64) (m : Memory) (s : σ) :
    Except Error UInt64 × Memory × σ :=
  let params := p.signature.params
  let words := (Abi.host.classify params).map (readSlot m registers stack)
  match (params.zip words).mapM fun (param, word) => box m param word with
  | .error error => (.error error, m, s)
  | .ok args =>
    let (answer, s) := p.invoke args s
    match answer.result with
    | .error error => (.error error, m, s)
    | .ok value =>
      match storeBack params words answer.args m with
      | (.error error, m) => (.error error, m, s)
      | (.ok (), m) =>
        (if p.signature.ret.isVoid then .ok 0 else value.bits p.signature.ret.element, m, s)

end Native

end Reroute
