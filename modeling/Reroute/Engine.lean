import Reroute.Clone
import Reroute.Proxy
/-!
# An engine for bytecode

The engine runs bytecode on a stack of boxed values and a list of
arguments, the receiver in front. It knows the instructions that move
constants and arguments about, the three plain sums, and branches; all else
it refuses when it gets there. What a string token names is asked of the
code's own scope at the moment it is pushed.

`Engine.step` makes one step; `Engine.run` makes steps until the code
returns or fails, but no more than a given number of them.
-/

namespace Reroute

/-- Code that is ready to run. -/
structure Code where
  name : String
  instructions : Array Instruction
  returnsVoid : Bool
  /-- What a string token names. -/
  string : Token → Except Error String

namespace Engine

/-- The sums of two numbers. -/
inductive Arithmetic where
  | add
  | sub
  | mul
  deriving Repr, DecidableEq

/-- What an instruction does. -/
inductive Operation where
  | nop
  | loadArg (index : Nat)
  | storeArg (index : Nat)
  | constant (value : Value)
  | loadString (token : Token)
  | arithmetic (op : Arithmetic)
  | dup
  | pop
  | jump
  /-- Branches if the value on the stack is true, or if it is not. -/
  | branch (onTrue : Bool)
  | ret
  deriving Repr, DecidableEq

/-- The argument that an instruction names. -/
def argumentIndex (i : Instruction) : Except Error Nat :=
  match i.operand with
  | .immediate (.uint8 index) => .ok index.toNat
  | .immediate (.uint16 index) => .ok index.toNat
  | _ => .error (.other ("bad index " ++ i.text))

/-- The number that an instruction pushes. -/
def constantOf (i : Instruction) : Except Error Value :=
  match i.operand with
  | .immediate (.int8 value) => .ok (.i4 value.toInt32)
  | .immediate (.int32 value) => .ok (.i4 value)
  | .immediate (.int64 value) => .ok (.i8 value)
  | _ => .error (.other ("bad constant " ++ i.text))

/-- The string token of an instruction. -/
def stringToken (i : Instruction) : Except Error Token :=
  match i.token? with
  | some token => .ok token
  | none => .error (.other ("bad string " ++ i.text))

/-- What an instruction does, by its mnemonic. -/
def operation (i : Instruction) : Except Error Operation :=
  match i.mnemonic with
  | "nop" => .ok .nop
  | "ldarg.0" => .ok (.loadArg 0)
  | "ldarg.1" => .ok (.loadArg 1)
  | "ldarg.2" => .ok (.loadArg 2)
  | "ldarg.3" => .ok (.loadArg 3)
  | "ldarg.s" | "ldarg" => (argumentIndex i).map .loadArg
  | "starg.s" | "starg" => (argumentIndex i).map .storeArg
  | "ldc.i4.m1" => .ok (.constant (.i4 (-1)))
  | "ldc.i4.0" => .ok (.constant (.i4 0))
  | "ldc.i4.1" => .ok (.constant (.i4 1))
  | "ldc.i4.2" => .ok (.constant (.i4 2))
  | "ldc.i4.3" => .ok (.constant (.i4 3))
  | "ldc.i4.4" => .ok (.constant (.i4 4))
  | "ldc.i4.5" => .ok (.constant (.i4 5))
  | "ldc.i4.6" => .ok (.constant (.i4 6))
  | "ldc.i4.7" => .ok (.constant (.i4 7))
  | "ldc.i4.8" => .ok (.constant (.i4 8))
  | "ldc.i4.s" | "ldc.i4" | "ldc.i8" => (constantOf i).map .constant
  | "ldstr" => (stringToken i).map .loadString
  | "add" => .ok (.arithmetic .add)
  | "sub" => .ok (.arithmetic .sub)
  | "mul" => .ok (.arithmetic .mul)
  | "dup" => .ok .dup
  | "pop" => .ok .pop
  | "br.s" | "br" => .ok .jump
  | "brtrue.s" | "brtrue" => .ok (.branch true)
  | "brfalse.s" | "brfalse" => .ok (.branch false)
  | "ret" => .ok .ret
  | other => .error (.other ("cannot interpret " ++ other))

/-- The result of a sum. Two 32-bit numbers give one of 32 bits, all else
gives 64. -/
def compute (op : Arithmetic) (left right : Value) : Except Error Value :=
  let (name, sum) : String × (Int64 → Int64 → Int64) := match op with
    | .add => ("add", (· + ·))
    | .sub => ("sub", (· - ·))
    | .mul => ("mul", (· * ·))
  match left.int64?, right.int64? with
  | some a, some b =>
    match left, right with
    | .i4 _, .i4 _ => .ok (.i4 (sum a b).toInt32)
    | _, _ => .ok (.i8 (sum a b))
  | _, _ => .error (.other ("cannot " ++ name ++ " " ++ left.text ++ " and " ++ right.text))

/-- Whether a branch takes a value for true: it is neither null nor zero. -/
def isTrue (v : Value) : Bool := !v.isNull && v.int64? != some 0

/-- The state of a run. -/
structure Machine where
  /-- The index of the next instruction. -/
  next : Nat
  /-- The stack, top first. -/
  stack : List Value
  args : List Value
  deriving Repr, DecidableEq

/-- How far a run has got. -/
inductive Status where
  | running (m : Machine)
  | returned (value : Value) (args : List Value)
  | failed (error : Error) (args : List Value)
  deriving Repr, DecidableEq

/-- The error for an empty stack. -/
def underflow : Error := .other "evaluation stack underflow"

/-- The index of the instruction that a branch leads to. -/
def branchIndex (code : Code) (i : Instruction) : Except Error Nat :=
  let index? := i.targets.head?.bind fun target =>
    code.instructions.findIdx? fun j => j.offset == target
  match index? with
  | some index => .ok index
  | none => .error (.other ("bad branch " ++ i.text))

/-- Runs on with a value on the stack, or fails. -/
def pushing (m : Machine) : Except Error Value → Status
  | .ok value => .running { m with stack := value :: m.stack }
  | .error error => .failed error m.args

/-- Runs on at the place that a branch leads to, or fails. -/
def branching (code : Code) (i : Instruction) (m : Machine) : Status :=
  match branchIndex code i with
  | .ok index => .running { m with next := index }
  | .error error => .failed error m.args

/-- Carries an operation out; the next instruction is the one behind it already. -/
def perform (code : Code) (i : Instruction) (m : Machine) (operation : Operation) : Status :=
  match operation, m.stack with
  | .nop, _ => .running m
  | .loadArg index, _ =>
    pushing m <| match m.args[index]? with
      | some value => .ok value
      | none => .error (.argumentCount (index + 1) m.args.length)
  | .constant value, _ => pushing m (.ok value)
  | .loadString token, _ => pushing m ((code.string token).map .str)
  | .jump, _ => branching code i m
  | .ret, stack =>
    if code.returnsVoid then .returned .null m.args
    else
      match stack with
      | [] => .failed underflow m.args
      | top :: _ => .returned top m.args
  | .storeArg index, top :: rest =>
    if index < m.args.length then .running { m with stack := rest, args := m.args.set index top }
    else .failed (.argumentCount (index + 1) m.args.length) m.args
  | .arithmetic op, right :: left :: rest =>
    pushing { m with stack := rest } (compute op left right)
  | .dup, top :: rest => .running { m with stack := top :: top :: rest }
  | .pop, _ :: rest => .running { m with stack := rest }
  | .branch onTrue, top :: rest =>
    let popped := { m with stack := rest }
    if isTrue top = onTrue then branching code i popped else .running popped
  | .storeArg _, [] | .arithmetic _, _ | .dup, [] | .pop, [] | .branch _, [] =>
    .failed underflow m.args

/-- One step of a run. -/
def step (code : Code) : Status → Status
  | .running m =>
    match code.instructions[m.next]? with
    | none => .failed (.other (code.name ++ ": fell off the end")) m.args
    | some i =>
      match operation i with
      | .error error => .failed error m.args
      | .ok operation => perform code i { m with next := m.next + 1 } operation
  | stopped => stopped

/-- The start of a run. -/
def start (args : List Value) : Status := .running ⟨0, [], args⟩

/-- At most `fuel` steps. -/
def run (code : Code) : (fuel : Nat) → Status → Status
  | 0, s => s
  | fuel + 1, s =>
    match s with
    | .running m => run code fuel (step code (.running m))
    | stopped => stopped

/-- A call of some code, for at most `fuel` steps. -/
def call (code : Code) (fuel : Nat) (args : List Value) : Answer :=
  match run code fuel (start args) with
  | .running m => .fail .abandoned m.args
  | .returned value args => ⟨.ok value, args⟩
  | .failed error args => .fail error args

/-- What a string token names in a clone's scope. -/
def stringIn (scope : Interner) (token : Token) : Except Error String :=
  match scope.get? token with
  | some (.string literal) => .ok literal
  | _ => .error (.unresolvedToken token)

/-- A clone made ready to run. -/
def compile (clone : Clone) (scope : Interner) : Except Error Code := do
  return { name := clone.name, instructions := (← Instruction.decode clone.code).toArray,
           returnsVoid := clone.ret.isVoid, string := stringIn scope }

end Engine

end Reroute
