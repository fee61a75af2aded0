import Reroute.Bytes
import Reroute.Native.Slot
/-!
# Entry stubs

A stub is what native callers jump to. It stores every register that can
hold an argument in a block on its own stack, in the order in which slots
are numbered, and calls the dispatcher with the context of the proxy, the
block, the caller's stack arguments and a slot for the result. Behind the
call it puts the result where callers of any type look for it.
-/

namespace Reroute

namespace Stub

/-- The size of the System V frame: six words, eight words, the result. -/
def frameSize : UInt8 := 0x80

/-- Where the result slot lies in the System V frame. -/
def resultOffset : UInt8 := 0x70

/-- The instruction `movq [rsp + 0x30 + 8·n], xmmN`. -/
def spillFloat (n : UInt8) : Bytes :=
  [0x66, 0x0F, 0xD6, (0x44 : UInt8) ||| (n <<< 3), 0x24, 0x30 + 8 * n]

/-- The stub of a System V host. -/
def sysV (context dispatcher : UInt64) : Bytes :=
  -- push rbp; mov rbp, rsp; sub rsp, 0x80
  [0x55, 0x48, 0x89, 0xE5] ++ [0x48, 0x81, 0xEC, frameSize, 0x00, 0x00, 0x00] ++
  -- mov [rsp], rdi; then rsi, rdx, rcx, r8, r9 behind it
  [0x48, 0x89, 0x3C, 0x24] ++ [0x48, 0x89, 0x74, 0x24, 0x08] ++
  [0x48, 0x89, 0x54, 0x24, 0x10] ++ [0x48, 0x89, 0x4C, 0x24, 0x18] ++
  [0x4C, 0x89, 0x44, 0x24, 0x20] ++ [0x4C, 0x89, 0x4C, 0x24, 0x28] ++
  ((List.range Abi.floatRegisters).map fun n => spillFloat (UInt8.ofNat n)).flatten ++
  -- mov rdi, context; mov rsi, rsp; lea rdx, [rbp+0x10]; lea rcx, [rsp+0x70]
  [0x48, 0xBF] ++ LittleEndian.toBytes context ++ [0x48, 0x89, 0xE6] ++
  [0x48, 0x8D, 0x55, 0x10] ++ [0x48, 0x8D, 0x4C, 0x24, resultOffset] ++
  -- mov rax, dispatcher; call rax
  [0x48, 0xB8] ++ LittleEndian.toBytes dispatcher ++ [0xFF, 0xD0] ++
  -- mov rax, [rsp+0x70]; movq xmm0, rax; leave; ret
  [0x48, 0x8B, 0x44, 0x24, resultOffset] ++ [0x66, 0x48, 0x0F, 0x6E, 0xC0] ++ [0xC9, 0xC3]

/-- What puts a float result on the floating-point stack. -/
def loadFloat (ret : ParamType) : Bytes :=
  if ret.byRef then []
  else
    match ret.element with
    -- fld dword [esp+0x10]
    | .r4 => [0xD9, 0x44, 0x24, 0x10]
    -- fld qword [esp+0x10]
    | .r8 => [0xDD, 0x44, 0x24, 0x10]
    | _ => []

/-- The stub of a cdecl host, for a result of some type. -/
def cdecl (context dispatcher : UInt32) (ret : ParamType) : Bytes :=
  -- push ebp; mov ebp, esp; sub esp, 0x18
  [0x55, 0x89, 0xE5, 0x83, 0xEC, 0x18] ++
  -- lea eax, [ebp+8]; lea ecx, [esp+0x10]
  [0x8D, 0x45, 0x08] ++ [0x8D, 0x4C, 0x24, 0x10] ++
  -- mov [esp+12], ecx; mov [esp+8], eax; mov [esp+4], 0; mov [esp], context
  [0x89, 0x4C, 0x24, 0x0C] ++ [0x89, 0x44, 0x24, 0x08] ++
  [0xC7, 0x44, 0x24, 0x04, 0x00, 0x00, 0x00, 0x00] ++
  [0xC7, 0x04, 0x24] ++ LittleEndian.toBytes context ++
  -- mov eax, dispatcher; call eax
  0xB8 :: LittleEndian.toBytes dispatcher ++ [0xFF, 0xD0] ++
  -- mov eax, [esp+0x10]; mov edx, [esp+0x14]
  [0x8B, 0x44, 0x24, 0x10] ++ [0x8B, 0x54, 0x24, 0x14] ++
  loadFloat ret ++
  -- leave; ret
  [0xC9, 0xC3]

end Stub

end Reroute
