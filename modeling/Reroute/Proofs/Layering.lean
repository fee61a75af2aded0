import Reroute.Hook.Onion
/-!
# Detoured calls are nested functions

A detoured call keeps the hooks of its chain in a frame, and a handle only
knows the place of that frame. What the call does is what nested functions
do: run from a thread, and run from the thread's circumstances, which have
no frames, both give the same outcome (`callTarget_sameOutcome`).

The clone is the first thing to compare: the call hands it a flat list and
copies from the list that comes back, the nested functions say place by place
what the caller finds (`clone_eq`).

The one invariant is that a computation takes the frames it has put on the
stack off again, whatever hooks do in between (`SameOutcome.frames`). So while
a hook runs the frame of its own handle is where it was, and going on through
the handle finds the hooks that are still to come. The argument goes by
induction on what a hook does, then on the hooks that are still to come, and
last on how deep calls are nested.
-/

namespace Reroute

variable {ν α : Type}

/-- A run of a thread and one of its circumstances that leave the same behind,
the thread with the frames that it had. -/
structure SameOutcome (frames : List Frame) (run : α × Thread) (plain : α × Circumstances) :
    Prop where
  value : run.1 = plain.1
  left : Circumstances.ofThread run.2 = plain.2
  frames : run.2.frames = frames

/-- Two handlers that have the same outcome wherever the frames are given ones. -/
def SameHandler (frames : List Frame) (run : Handler Thread) (plain : Handler Circumstances) :
    Prop :=
  ∀ receiver args t, t.frames = frames →
    SameOutcome frames (run receiver args t) (plain receiver args (.ofThread t))

/-- Calls of detoured methods have the same outcome, whatever frames there are. -/
def SameCalls (enter : Handle → Handler Thread) (enter' : Handle → Handler Circumstances) : Prop :=
  ∀ frames method, SameHandler frames (enter method) (enter' method)

namespace SameOutcome

variable {frames : List Frame} {run : α × Thread} {plain : α × Circumstances}

theorem of_eq {a : α} {t : Thread} (h : t.frames = frames) :
    SameOutcome frames (a, t) (a, .ofThread t) :=
  ⟨rfl, rfl, h⟩

/-- What a thread has left, and its circumstances, as the start of what follows. -/
theorem eq_ofThread (h : SameOutcome frames run plain) : plain = (run.1, .ofThread run.2) :=
  Prod.ext h.value.symm h.left.symm

end SameOutcome

/-! ## What a hook does -/

section Run

variable {enter : Handle → Handler Thread} {enter' : Handle → Handler Circumstances}
variable {frames : List Frame}

/-- A program has the same outcome if its handles lead to the same. -/
theorem run_sameOutcome (hcalls : SameCalls enter enter') {next : ν → Handler Thread}
    {next' : ν → Handler Circumstances} (hnext : ∀ v, SameHandler frames (next v) (next' v))
    (isInnermost : ν → Bool) (p : Program ν α) {t : Thread} (ht : t.frames = frames) :
    SameOutcome frames (p.run (Pipeline.services enter next isInnermost) t)
      (p.run (Onion.services enter' next' isInnermost) (.ofThread t)) := by
  induction p generalizing t with
  | done value => exact .of_eq ht
  | next v receiver args resume ih =>
      have h := hnext v receiver args t ht
      show SameOutcome frames _ ((resume (next' v receiver args (.ofThread t)).1).run _
        (next' v receiver args (.ofThread t)).2)
      rw [h.eq_ofThread]
      exact ih _ h.frames
  | isInnermost v resume ih => exact ih _ ht
  | call method receiver args resume ih =>
      have h := hcalls frames method receiver args t ht
      show SameOutcome frames _ ((resume (enter' method receiver args (.ofThread t)).1).run _
        (enter' method receiver args (.ofThread t)).2)
      rw [h.eq_ofThread]
      exact ih _ h.frames
  | edit method change resume ih => exact ih _ ht
  | depth resume ih => exact ih _ ht
  | log line resume ih => exact ih (t := t.log line) ht
  | consult resume ih => exact ih _ ht

/-- So has one without handles. -/
theorem run_plain_sameOutcome (hcalls : SameCalls enter enter') (p : Program Empty α)
    {t : Thread} (ht : t.frames = frames) :
    SameOutcome frames (p.run (Pipeline.plainServices enter) t)
      (p.run (Onion.plainServices enter') (.ofThread t)) := by
  unfold Pipeline.plainServices Onion.plainServices
  exact run_sameOutcome hcalls (fun v => v.elim) _ p ht

end Run

/-! ## The clone -/

/-- A program that goes on where another ends is carried out after it. -/
theorem Program.run_bind {β σ : Type} (services : Services ν σ) (p : Program ν α)
    (f : α → Program ν β) (s : σ) :
    (p.bind f).run services s = (f (p.run services s).1).run services (p.run services s).2 := by
  induction p generalizing s with
  | done value => rfl
  | next v receiver args resume ih => exact ih _ _
  | isInnermost v resume ih => exact ih _ _
  | call method receiver args resume ih => exact ih _ _
  | edit method change resume ih => exact ih _ _
  | depth resume ih => exact ih _ _
  | log line resume ih => exact ih _
  | consult resume ih => exact ih _ _

/-- What is handed back, place by place: in each the clone's argument one place
behind it, if the clone has left one there. -/
theorem Target.handBack_ok (args left : List Value) (value : Value) :
    handBack args ⟨.ok value, left⟩ =
      ⟨.ok value, args.mapIdx fun place passed => left[place + 1]?.getD passed⟩ := by
  have hargs : (left.drop 1).take args.length ++ args.drop (left.drop 1).length =
      args.mapIdx fun place passed => left[place + 1]?.getD passed := by
    refine List.ext_getElem? fun i => ?_
    rw [List.getElem?_mapIdx, List.getElem?_append, List.getElem?_take, List.getElem?_drop,
      List.getElem?_drop, List.length_take, List.length_drop]
    by_cases hpassed : i < args.length
    · by_cases hleft : i < left.length - 1
      · have hplace : 1 + i = i + 1 := Nat.add_comm 1 i
        have hbound : i + 1 < left.length := by omega
        rw [if_pos (by omega), if_pos hpassed, hplace, List.getElem?_eq_getElem hpassed,
          List.getElem?_eq_getElem hbound]
        rfl
      · have hplace : left.length - 1 + (i - min args.length (left.length - 1)) = i := by omega
        rw [if_neg (by omega), hplace, List.getElem?_eq_getElem hpassed,
          List.getElem?_eq_none (by omega)]
        rfl
    · have hnone : args[i]? = none := List.getElem?_eq_none (by omega)
      rw [if_neg (by omega), List.getElem?_eq_none (by omega), hnone]
      rfl
  simp only [handBack, hargs]

/-- The call does with the clone what is said of the clone on its own. -/
theorem Onion.clone_eq (enter : Handle → Handler Circumstances) (target : Target)
    (receiver : Option Value) (args : List Value) (c : Circumstances) :
    Onion.clone enter target receiver args c =
      (target.invoke receiver args).run (Onion.plainServices enter) c := by
  unfold Onion.clone Target.invoke
  cases target.hasReceiver with
  | false => rfl
  | true =>
      simp only [if_true, Program.run_bind]
      rcases (target.body (receiver.getD .null :: args)).run (Onion.plainServices enter) c with
        ⟨⟨result, left⟩, c'⟩
      cases result with
      | ok value => rw [Target.handBack_ok]; rfl
      | error error => rfl

theorem clone_sameHandler {enter : Handle → Handler Thread}
    {enter' : Handle → Handler Circumstances} (hcalls : SameCalls enter enter')
    (frames : List Frame) (target : Target) :
    SameHandler frames
      (fun receiver args => (target.invoke receiver args).run (Pipeline.plainServices enter))
      (Onion.clone enter' target) := by
  intro receiver args t ht
  rw [Onion.clone_eq]
  exact run_plain_sameOutcome hcalls (target.invoke receiver args) ht

/-! ## The hooks around a call -/

section Chain

variable (around : Surroundings)
variable {enter : Handle → Handler Thread} {enter' : Handle → Handler Circumstances}
variable {frames : List Frame} {hooks : List HookId} {target : Target}

theorem layers_take_succ {index : Nat} {hook : HookId} (h : hooks[index]? = some hook) :
    Onion.layers around.behaviours enter' (hooks.take (index + 1)) target =
      Onion.wrap around.behaviours enter'
        (Onion.layers around.behaviours enter' (hooks.take index) target) hook := by
  rw [List.take_add_one, h, Onion.layers, List.foldl_append]
  rfl

/-- Only the clone itself has nothing around it. -/
theorem isInnermost_layers_take {index : Nat} (h : index ≤ hooks.length) :
    (Onion.layers around.behaviours enter' (hooks.take index) target).isInnermost =
      (index == 0) := by
  cases index with
  | zero => rfl
  | succ index =>
      rw [layers_take_succ around (List.getElem?_eq_getElem h)]
      rfl

/-- Going on through a handle runs the hooks that are still to come, the one
that was registered last around all others. -/
theorem callNext_sameHandler (hcalls : SameCalls enter enter') {position remaining : Nat}
    (hframe : frames[position]? = some ⟨hooks, target⟩) (hle : remaining ≤ hooks.length) :
    SameHandler frames (Pipeline.callNext around enter position remaining)
      (Onion.layers around.behaviours enter' (hooks.take remaining) target).run := by
  induction remaining with
  | zero =>
      intro receiver args t ht
      rw [Pipeline.callNext, ht, hframe]
      exact clone_sameHandler hcalls frames target receiver args t ht
  | succ index ih =>
      intro receiver args t ht
      have hhook := List.getElem?_eq_getElem hle
      have hindex : index ≤ hooks.length := Nat.le_of_succ_le hle
      rw [layers_take_succ around hhook, Pipeline.callNext, ht, hframe]
      simp only [hhook, Onion.wrap, isInnermost_layers_take around hindex]
      exact run_sameOutcome hcalls (fun _ => ih hindex) _ _ ht

/-- A chain puts a frame on top of those that are there and takes it off again. -/
theorem runChain_sameOutcome (hcalls : SameCalls enter enter') (receiver : Option Value)
    (args : List Value) {t : Thread} (ht : t.frames = frames) (hhooks : hooks ≠ []) :
    SameOutcome frames (Pipeline.runChain around enter hooks target receiver args t)
      (Onion.inner around.behaviours enter' hooks target receiver args (.ofThread t)) := by
  subst ht
  have hframe : (t.frames ++ [(⟨hooks, target⟩ : Frame)])[t.frames.length]? =
      some ⟨hooks, target⟩ := List.getElem?_concat_length
  have h := callNext_sameHandler around hcalls hframe (Nat.le_refl hooks.length)
    receiver args { t with frames := t.frames ++ [⟨hooks, target⟩] } rfl
  have hdepth : Circumstances.ofThread { t with frames := t.frames ++ [⟨hooks, target⟩] } =
      { Circumstances.ofThread t with depth := (Circumstances.ofThread t).depth + 1 } := by
    simp [Circumstances.ofThread, Thread.depth]
  rw [List.take_length, hdepth] at h
  have hnonempty : ¬hooks.isEmpty = true := by simpa using hhooks
  rw [Onion.inner, if_neg hnonempty, h.eq_ofThread, Pipeline.runChain]
  have htake : (t.frames ++ [(⟨hooks, target⟩ : Frame)]).take t.frames.length = t.frames :=
    List.take_left
  refine ⟨rfl, ?_, ?_⟩
  · simp only [h.frames, htake]
    rfl
  · simp only [h.frames, htake]

theorem runInner_sameHandler (target : Target) (hcalls : SameCalls enter enter') (method : Handle)
    (receiver : Option Value) (args : List Value) {t : Thread} (ht : t.frames = frames) :
    SameOutcome frames (Pipeline.runInner around enter method target receiver args t)
      (Onion.inner around.behaviours enter' (t.lists method).chain target receiver args
        (.ofThread t)) := by
  rw [Pipeline.runInner]
  cases hchain : (t.lists method).chain with
  | nil => exact clone_sameHandler hcalls frames target receiver args t ht
  | cons hook rest => exact runChain_sameOutcome around hcalls receiver args ht (List.cons_ne_nil _ _)

end Chain

/-! ## The hooks before and after a call -/

section Phases

variable (around : Surroundings)
variable {enter : Handle → Handler Thread} {enter' : Handle → Handler Circumstances}
variable {frames : List Frame}

/-- Once a call is decided, no further hook before it runs. -/
theorem foldl_openWith_of_error (receiver : Option Value) (hooks : List HookId) (error : Error)
    (args : List Value) (c : Circumstances) :
    hooks.foldl (Onion.openWith around.behaviours enter' receiver) ((.error error, args), c) =
      ((.error error, args), c) := by
  induction hooks with
  | nil => rfl
  | cons hook rest ih => exact ih

theorem foldl_openWith_of_prevented (receiver : Option Value) (hooks : List HookId)
    (value : Value) (args : List Value) (c : Circumstances) :
    hooks.foldl (Onion.openWith around.behaviours enter' receiver)
      ((.ok (some value), args), c) = ((.ok (some value), args), c) := by
  induction hooks with
  | nil => rfl
  | cons hook rest ih => exact ih

/-- Once a call has failed, no further hook after it runs. -/
theorem foldl_closeWith_of_error (receiver : Option Value) (hooks : List HookId) (error : Error)
    (args : List Value) (c : Circumstances) :
    hooks.foldl (Onion.closeWith around.behaviours enter' receiver) (.fail error args, c) =
      (.fail error args, c) := by
  induction hooks with
  | nil => rfl
  | cons hook rest ih => exact ih

theorem runBefore_sameOutcome (hcalls : SameCalls enter enter') (receiver : Option Value)
    (hooks : List HookId) (args : List Value) {t : Thread} (ht : t.frames = frames) :
    SameOutcome frames (Pipeline.runBefore around enter receiver hooks args t)
      (hooks.foldl (Onion.openWith around.behaviours enter' receiver)
        ((.ok none, args), .ofThread t)) := by
  induction hooks generalizing args t with
  | nil => exact .of_eq ht
  | cons hook rest ih =>
      have h := run_plain_sameOutcome hcalls (around.behaviours.before hook receiver args) ht
      rw [Pipeline.runBefore, List.foldl_cons, Onion.openWith, h.eq_ofThread]
      rcases hrun : (around.behaviours.before hook receiver args).run
        (Pipeline.plainServices enter) t with ⟨⟨verdict, args'⟩, t'⟩
      rw [hrun] at h
      cases verdict with
      | error error =>
          simp only [Except.map, foldl_openWith_of_error around]
          exact .of_eq h.frames
      | ok verdict =>
          by_cases hprevent : verdict.prevent = true
          · simp only [Except.map, hprevent, if_true, foldl_openWith_of_prevented around]
            exact .of_eq h.frames
          · simp only [Except.map, hprevent]
            exact ih args' h.frames

theorem runAfter_sameOutcome (hcalls : SameCalls enter enter') (receiver : Option Value)
    (hooks : List HookId) (answer : Answer) {t : Thread} (ht : t.frames = frames) :
    SameOutcome frames (Pipeline.runAfter around enter receiver hooks answer t)
      (hooks.foldl (Onion.closeWith around.behaviours enter' receiver)
        (answer, .ofThread t)) := by
  induction hooks generalizing answer t with
  | nil => exact .of_eq ht
  | cons hook rest ih =>
      obtain ⟨result, args⟩ := answer
      rw [Pipeline.runAfter, List.foldl_cons]
      cases result with
      | error error =>
          rw [show (⟨.error error, args⟩ : Answer) = .fail error args from rfl]
          simp only [Onion.closeWith, Answer.fail]
          rw [show (⟨.error error, args⟩ : Answer) = .fail error args from rfl,
            foldl_closeWith_of_error around]
          exact .of_eq ht
      | ok value =>
          have h := run_plain_sameOutcome hcalls
            (around.behaviours.after hook value receiver args) ht
          simp only [Onion.closeWith, h.eq_ofThread]
          exact ih _ h.frames

end Phases

/-! ## Whole calls -/

section Calls

variable {around : Surroundings}
variable {enter : Handle → Handler Thread} {enter' : Handle → Handler Circumstances}

theorem runCall_sameHandler (hcalls : SameCalls enter enter') (frames : List Frame)
    (method : Handle) (target : Target) :
    SameHandler frames (Pipeline.runCall around enter method target)
      (Onion.runCall around.behaviours enter' method target) := by
  intro receiver args t ht
  have hbefore := runBefore_sameOutcome around hcalls receiver
    (t.lists method).before args ht
  rw [Onion.runCall, show (Circumstances.ofThread t).lists = t.lists from rfl,
    hbefore.eq_ofThread, Pipeline.runCall]
  rcases hrun : Pipeline.runBefore around enter receiver (t.lists method).before args t with
    ⟨⟨opening, args'⟩, t'⟩
  rw [hrun] at hbefore
  have ht' : t'.frames = frames := hbefore.frames
  rcases opening with error | prevented
  · simp only [foldl_closeWith_of_error around]
    exact .of_eq ht'
  · cases prevented with
    | some value => exact runAfter_sameOutcome around hcalls receiver _ _ ht'
    | none =>
        have hinner := runInner_sameHandler around target hcalls method receiver args' ht'
        simp only [show (Circumstances.ofThread t').lists = t'.lists from rfl,
          hinner.eq_ofThread]
        rcases hcall : Pipeline.runInner around enter method target receiver args' t' with
          ⟨⟨result, args''⟩, t''⟩
        rw [hcall] at hinner
        have ht'' : t''.frames = frames := hinner.frames
        cases result with
        | ok value => exact runAfter_sameOutcome around hcalls receiver _ _ ht''
        | error error =>
            show SameOutcome frames (.fail error args'', t'') ((t''.lists method).after.foldl
              (Onion.closeWith around.behaviours enter' receiver)
              (.fail error args'', .ofThread t''))
            rw [foldl_closeWith_of_error around]
            exact .of_eq ht''

theorem call_sameCalls (around : Surroundings) (fuel : Nat) :
    SameCalls (Pipeline.call around fuel) (Onion.call around fuel) := by
  induction fuel with
  | zero => exact fun frames method receiver args t ht => .of_eq ht
  | succ fuel ih =>
      intro frames method receiver args t ht
      rw [Pipeline.call, Onion.call]
      cases around.target? method with
      | none => exact .of_eq ht
      | some target => exact runCall_sameHandler ih frames method target receiver args t ht

/-- **A detoured call is the clone with its hooks around it.** Whatever hooks and
clones do, however deep calls are nested, and whatever frames are there
already: the call has the answer of the nested functions, leaves the hook
lists and the log that they leave, and leaves the frames as they were. -/
theorem callTarget_sameOutcome (around : Surroundings) (fuel : Nat) (method : Handle)
    (target : Target) (receiver : Option Value) (args : List Value) (t : Thread) :
    SameOutcome t.frames (Pipeline.callTarget around fuel method target receiver args t)
      (Onion.callTarget around fuel method target receiver args (.ofThread t)) :=
  runCall_sameHandler (call_sameCalls around fuel) t.frames method target receiver args t rfl

/-- Gives its receiver and stores in its argument. What it stores behind that is lost. -/
def Target.keeper : Target where
  hasReceiver := true
  body args := .log "clone" (.done ⟨.ok (args[0]?.getD .null), args.set 1 (.i4 7) ++ [.null]⟩)

/-- Hooks that log what they do. The one before a call puts another one around it, which
goes on with a receiver and an argument of its own; the one after it makes a call itself. -/
def Behaviours.meddlers : Behaviours where
  before hook _ args :=
    .log (hook ++ " before") (.edit ⟨1⟩ (.add .chain "b") fun _ => .done (.ok .proceed, args))
  chain hook _ _ :=
    .log (hook ++ " in") (.next () (some (.ref 0x20)) [.i4 2] fun answer =>
      .log (hook ++ " out") (.done answer))
  after hook value _ args :=
    .call ⟨2⟩ none [] fun _ => .log (hook ++ " after") (.done ⟨.ok value, args⟩)

/-- There is one more method to call. -/
def Surroundings.neighbourhood : Surroundings where
  target? method :=
    if method = ⟨2⟩ then some ⟨false, fun args => .log "other" (.done ⟨.ok .null, args⟩)⟩ else none
  behaviours := .meddlers

/-- A thread in which one method has a hook before it and one after it. -/
def Thread.hooked : Thread :=
  ⟨fun h => if h = ⟨1⟩ then ⟨["a"], [], ["c"]⟩ else .empty, [], []⟩

/-- The clone gets the receiver that the hook around it passes on, and its argument
comes back through the hook to the caller. -/
theorem callTarget_sameOutcome_hooked :
    let run := Pipeline.callTarget .neighbourhood 1 ⟨1⟩ .keeper (some (.ref 0x10)) [.i4 1] .hooked
    (run.1.result.toOption = some (.ref 0x20) ∧ run.1.args = [.i4 7] ∧
      run.2.lines = ["a before", "b in", "clone", "b out", "other", "c after"]) ∧
    SameOutcome [] run
      (Onion.callTarget .neighbourhood 1 ⟨1⟩ .keeper (some (.ref 0x10)) [.i4 1]
        (.ofThread .hooked)) :=
  ⟨⟨rfl, rfl, rfl⟩,
    callTarget_sameOutcome .neighbourhood 1 ⟨1⟩ .keeper (some (.ref 0x10)) [.i4 1] .hooked⟩

end Calls

end Reroute
