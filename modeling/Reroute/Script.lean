import Reroute.Hook.Program
/-!
# Scripted hooks

Hooks and handlers can be written as lists of actions. A script works on the
arguments of its call and on a result, which it starts out with and may
replace; a hook before a call also has a mark that says that it answers the
call. The first action that fails ends the script. A hook writes its name
to the log when it starts.
-/

namespace Reroute

/-- One action of a script. -/
inductive Action where
  /-- Stores an argument. -/
  | set (index : Nat) (value : Value)
  /-- Adds to an argument, which becomes a 32-bit number. -/
  | add (index : Nat) (amount : Int64)
  | swap (first second : Nat)
  /-- Goes on with the receiver of this call. -/
  | next
  | nextWith (receiver : Value)
  | nextNone
  /-- Goes on, and turns an error into a line and a result. -/
  | tryNext (fallback : Value)
  | ret (value : Value)
  /-- Adds to the result, which becomes a 32-bit number. -/
  | retAdd (amount : Int64)
  | retArg (index : Nat)
  | retReceiver
  /-- The sum of all arguments that are numbers. -/
  | sum
  /-- Marks the call as answered. -/
  | prevent
  | fail (text : String)
  /-- Breaks down without an answer. -/
  | breakDown
  /-- Writes the call and the result. -/
  | showCall
  | depth
  | isInnermost
  /-- Runs one list or another, as an argument is above a bound or not. -/
  | branch (index : Nat) (bound : Int64) (above otherwise : List Action)
  /-- Calls a detoured method on these arguments or on a copy of its own. -/
  | call (method : Handle) (args : Option (List Value))
  | edit (method : Handle) (change : HookEdit)

/-- What the actions of a script work on. -/
structure Progress where
  args : List Value
  ret : Value
  prevent : Bool

namespace Script

/-- How an action ends: the script goes on, or it fails. -/
abbrev Step (ν : Type) := Program ν (Except Error Unit × Progress)

variable {ν : Type}

/-- The script goes on with other progress. -/
def goOn (p : Progress) : Step ν := .done (.ok (), p)

/-- The script ends. -/
def stop (error : Error) (p : Progress) : Step ν := .done (.error error, p)

/-- A value as a number, or zero. -/
def number (v : Value) : Int64 := v.int64?.getD 0

/-- A number's low half. -/
def low (n : Int64) : Value := .i4 n.toInt32

/-- An argument, or the error that there is none. -/
def withArg (p : Progress) (index : Nat) (use : Value → Step ν) : Step ν :=
  match p.args[index]? with
  | some value => use value
  | none => stop (.other ("no argument " ++ toString index)) p

/-- Two arguments exchanged, if both are there. -/
def swapArgs (args : List Value) (first second : Nat) : List Value :=
  match args[first]?, args[second]? with
  | some a, some b => (args.set first b).set second a
  | _, _ => args

/-- The line that shows a call. -/
def callLine (receiver : Option Value) (p : Progress) : String :=
  let shown := match receiver with
    | some value => value.text
    | none => "-"
  shown ++ " (" ++ ", ".intercalate (p.args.map Value.text) ++ ") -> " ++ p.ret.text

/-- Takes what a call left: its arguments in any case, and its result unless
it failed. -/
def takeAnswer (p : Progress) (answer : Answer) : Step ν :=
  let p := { p with args := answer.args }
  match answer.result with
  | .ok value => goOn { p with ret := value }
  | .error error => stop error p

/-- Goes on with the next hook; without a handle there is none. -/
def goNext (handle : Option ν) (receiver : Option Value) (p : Progress)
    (resume : Answer → Step ν) : Step ν :=
  match handle with
  | some handle => .next handle receiver p.args resume
  | none => resume (.fail (.other "no next") p.args)

/-- Takes what the next hook left, or reports its error and goes on. A call
that was abandoned cannot be gone on from. -/
def takeOrReport (p : Progress) (fallback : Value) (answer : Answer) : Step ν :=
  match answer.result with
  | .error .abandoned => takeAnswer p answer
  | .error error =>
    .log ("caught " ++ error.message) (goOn { p with args := answer.args, ret := fallback })
  | .ok _ => takeAnswer p answer

mutual

/-- Runs one action. -/
def act (handle : Option ν) (receiver : Option Value) (p : Progress) : Action → Step ν
  | .set index value => withArg p index fun _ => goOn { p with args := p.args.set index value }
  | .add index amount => withArg p index fun value =>
    goOn { p with args := p.args.set index (low (number value + amount)) }
  | .swap first second => goOn { p with args := swapArgs p.args first second }
  | .next => goNext handle receiver p (takeAnswer p)
  | .nextWith receiver => goNext handle (some receiver) p (takeAnswer p)
  | .nextNone => goNext handle none p (takeAnswer p)
  | .tryNext fallback => goNext handle receiver p (takeOrReport p fallback)
  | .ret value => goOn { p with ret := value }
  | .retAdd amount => goOn { p with ret := low (number p.ret + amount) }
  | .retArg index => withArg p index fun value => goOn { p with ret := value }
  | .retReceiver => goOn { p with ret := receiver.getD .null }
  | .sum =>
    goOn { p with ret := .i8 ((p.args.filterMap Value.int64?).foldl (· + ·) 0) }
  | .prevent => goOn { p with prevent := true }
  | .fail text => stop (.hook text) p
  | .breakDown => stop .abandoned p
  | .showCall => .log (callLine receiver p) (goOn p)
  | .depth => .depth fun n => .log ("depth " ++ toString n) (goOn p)
  | .isInnermost =>
    match handle with
    | some handle => .isInnermost handle fun b => .log ("original " ++ Text.truth b) (goOn p)
    | none => .log ("original " ++ Text.truth false) (goOn p)
  | .branch index bound above otherwise => withArg p index fun value =>
    if bound < number value then runAll handle receiver p above
    else runAll handle receiver p otherwise
  | .call method args =>
    .call method receiver (args.getD p.args) fun answer =>
      takeAnswer p { answer with args := p.args }
  | .edit method change => .edit method change fun _ => goOn p

/-- Runs actions in order up to the first that fails. -/
def runAll (handle : Option ν) (receiver : Option Value) (p : Progress) : List Action → Step ν
  | [] => goOn p
  | action :: rest =>
    (act handle receiver p action).bind fun outcome =>
      match outcome with
      | (.error error, p) => stop error p
      | (.ok (), p) => runAll handle receiver p rest

end

/-- The answer that a script leaves. -/
def toAnswer (outcome : Except Error Unit × Progress) : Answer :=
  ⟨outcome.1.map fun () => outcome.2.ret, outcome.2.args⟩

/-- A script as a hook before a call. -/
def before (name : HookId) (script : List Action) (receiver : Option Value) (args : List Value) :
    Program Empty (Except Error Verdict × List Value) :=
  .log name ((runAll none receiver ⟨args, .null, false⟩ script).bind fun (result, p) =>
    .done (result.map fun () =>
      if p.prevent then Verdict.answer p.ret else Verdict.proceed, p.args))

/-- A script as a hook around a call. -/
def chain (name : HookId) (script : List Action) (receiver : Option Value) (args : List Value) :
    Program Unit Answer :=
  .log name ((runAll (some ()) receiver ⟨args, .null, false⟩ script).bind fun outcome =>
    .done (toAnswer outcome))

/-- A script as a hook after a call, which starts with the call's result. -/
def after (name : HookId) (script : List Action) (result : Value) (receiver : Option Value)
    (args : List Value) : Program Empty Answer :=
  .log name ((runAll none receiver ⟨args, result, false⟩ script).bind fun outcome =>
    .done (toAnswer outcome))

/-- A script as the handler of a proxy, which writes no name. -/
def handler {σ : Type} (services : Services Empty σ) (script : List Action) : Handler σ :=
  fun receiver args =>
    ((runAll none receiver ⟨args, .null, false⟩ script).bind fun outcome =>
      .done (toAnswer outcome)).run services

/-- What named scripts do; a name without a script does nothing. -/
def behaviours (scripts : List (HookId × List Action)) : Behaviours :=
  let script (name : HookId) : List Action := (scripts.lookup name).getD []
  { before := fun name => before name (script name)
    chain := fun name => chain name (script name)
    after := fun name => after name (script name) }

end Script

end Reroute
