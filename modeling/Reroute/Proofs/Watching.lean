import Reroute.Hook.Watch
/-!
# The frames of running chains

A handle knows its frame by position only, in a stack that nested runs put
frames on and take frames off again. The notes of a watched call show that this
is enough. They follow a discipline (`Watch.Follows`): runs end in the reverse
of the order in which they began, a run that has ended leaves the stack that
it found, and a hook that goes on through its handle finds the frame of its
own run, which is the last that has begun and not ended.

A computation that starts where the notes agree with the stack leads to where
they agree again, on the same stack, and what it notes in between follows the
discipline (`Watch.Leads`). Beside it the thread itself does the same
(`Watch.Faithful`), so what the notes say is true of the pipeline that nobody
watches. As in `Proofs/Layering` the induction is on what a hook does, then on the
hooks that are still to come, and last on how deep calls are nested.
-/

namespace Reroute

variable {ν α : Type}

namespace Watch

/-! ## Notes -/

/-- Notes that lead from one stack of running chains to another, where runs
are numbered in the order in which they begin. -/
inductive Follows : Nat → List ChainRun → List Moment → Nat → List ChainRun → Prop where
  | quiet {started : Nat} {stack : List ChainRun} : Follows started stack [] started stack
  | began {started started' : Nat} {stack stack' : List ChainRun} {frame : Frame}
      {rest : List Moment}
      (h : Follows (started + 1) (stack ++ [⟨started, frame⟩]) rest started' stack') :
      Follows started stack (.began ⟨started, frame⟩ :: rest) started' stack'
  | used {started started' remaining : Nat} {stack stack' : List ChainRun} {own : ChainRun}
      {rest : List Moment} (inBounds : remaining ≤ own.frame.hooks.length)
      (h : Follows started (stack ++ [own]) rest started' stack') :
      Follows started (stack ++ [own]) (.used own remaining (some own) :: rest) started' stack'
  | ended {started started' : Nat} {stack stack' : List ChainRun} {own : ChainRun}
      {rest : List Moment} (h : Follows started stack rest started' stack') :
      Follows started (stack ++ [own]) (.ended own stack stack :: rest) started' stack'

namespace Follows

variable {started started' started'' : Nat} {stack stack' stack'' : List ChainRun}
variable {log log' : List Moment}

theorem append (h : Follows started stack log started' stack')
    (h' : Follows started' stack' log' started'' stack'') :
    Follows started stack (log ++ log') started'' stack'' := by
  induction h with
  | quiet => exact h'
  | began _ ih => exact .began (ih h')
  | used inBounds _ ih => exact .used inBounds (ih h')
  | ended _ ih => exact .ended (ih h')

/-- A hook finds the frame of its own run, and its own place among the hooks. -/
theorem of_used (h : Follows started stack log started' stack') {own : ChainRun}
    {remaining : Nat} {found : Option ChainRun} (hmem : .used own remaining found ∈ log) :
    found = some own ∧ remaining ≤ own.frame.hooks.length := by
  induction h with
  | quiet => cases hmem
  | began _ ih | ended _ ih =>
      rcases List.mem_cons.mp hmem with heq | hmem
      · cases heq
      · exact ih hmem
  | used inBounds _ ih =>
      rcases List.mem_cons.mp hmem with heq | hmem
      · cases heq
        exact ⟨rfl, inBounds⟩
      · exact ih hmem

theorem of_ended (h : Follows started stack log started' stack') {own : ChainRun}
    {before after : List ChainRun} (hmem : .ended own before after ∈ log) : after = before := by
  induction h with
  | quiet => cases hmem
  | began _ ih | used _ _ ih =>
      rcases List.mem_cons.mp hmem with heq | hmem
      · cases heq
      · exact ih hmem
  | ended _ ih =>
      rcases List.mem_cons.mp hmem with heq | hmem
      · cases heq
        rfl
      · exact ih hmem

theorem numbers (h : Follows started stack log started' stack') :
    ∃ count, started' = started + count ∧
      (log.filterMap Moment.begun?).map ChainRun.number = List.range' started count := by
  induction h with
  | quiet => exact ⟨0, rfl, rfl⟩
  | @began started _ _ _ _ _ _ ih =>
      obtain ⟨count, hcount, hnumbers⟩ := ih
      refine ⟨count + 1, by omega, ?_⟩
      rw [List.range'_succ, ← hnumbers]
      rfl
  | used _ _ ih => exact ih
  | ended _ ih => exact ih

end Follows

/-! ## Computations under watch -/

/-- The notes agree with the stack on how many chains are running. -/
def Balanced (w : Watch) : Prop := w.started = w.returned + w.stack.length

theorem Balanced.running_eq {w : Watch} (h : w.Balanced) : w.running = w.thread.depth := by
  rw [running, h, Nat.add_sub_cancel_left]
  exact (length_frames_thread w).symm

/-- What a computation may do to a watched thread. -/
structure Leads (w w' : Watch) : Prop where
  stack : w'.stack = w.stack
  balanced : w'.Balanced
  noted : ∃ log, w'.moments = w.moments ++ log ∧
    Follows w.started w.stack log w'.started w'.stack

namespace Leads

variable {w w' w'' : Watch}

theorem refl (h : w.Balanced) : Leads w w :=
  ⟨rfl, h, [], (List.append_nil _).symm, .quiet⟩

theorem trans (h : Leads w w') (h' : Leads w' w'') : Leads w w'' := by
  obtain ⟨log, hmoments, hfollows⟩ := h.noted
  obtain ⟨log', hmoments', hfollows'⟩ := h'.noted
  refine ⟨h'.stack.trans h.stack, h'.balanced, log ++ log', ?_, hfollows.append hfollows'⟩
  rw [hmoments', hmoments, List.append_assoc]

theorem note_used {outer : List ChainRun} {own : ChainRun} {remaining : Nat}
    (hstack : w.stack = outer ++ [own]) (h : w.Balanced)
    (hle : remaining ≤ own.frame.hooks.length) :
    Leads w (w.note (.used own remaining (some own))) := by
  refine ⟨rfl, ?_, _, rfl, ?_⟩
  · rw [Balanced, started_note_used, returned_note_used]
    exact h
  · rw [started_note_used, stack_note, hstack]
    exact .used hle .quiet

theorem balanced_push (h : w.Balanced) (own : ChainRun) : (w.push own).Balanced := by
  rw [Balanced] at h ⊢
  simp [h, Nat.add_assoc]

/-- What happens between the begin and the end of a run happens on top of the
frame of that run. -/
theorem nest {frame : Frame} (h : Leads (w.push ⟨w.started, frame⟩) w') :
    Leads w (w'.pop ⟨w.started, frame⟩ w.stack) := by
  obtain ⟨log, hmoments, hfollows⟩ := h.noted
  have hpushed : w'.stack = w.stack ++ [⟨w.started, frame⟩] := h.stack
  -- Whatever ran in between has left the frame on top, so the cut takes off nothing else.
  have htake : w'.stack.take w.stack.length = w.stack := by
    rw [hpushed]
    exact List.take_left
  refine ⟨htake, ?_, .began ⟨w.started, frame⟩ :: (log ++ [.ended ⟨w.started, frame⟩ w.stack
    w.stack]), ?_, ?_⟩
  · have hbalanced := h.balanced
    rw [Balanced, hpushed, List.length_append, List.length_singleton] at hbalanced
    rw [Balanced, started_pop, returned_pop, stack_pop, htake, hbalanced]
    omega
  · rw [moments_pop, htake, hmoments]
    simp
  · rw [started_push, stack_push, hpushed] at hfollows
    rw [started_pop, stack_pop, htake]
    exact .began (hfollows.append (.ended .quiet))

end Leads

structure Faithful (w : Watch) (run : α × Watch) (plain : α × Thread) : Prop where
  value : run.1 = plain.1
  thread : run.2.thread = plain.2
  leads : Leads w run.2

/-- Two handlers that run alike wherever the stack is a given one. -/
def FaithfulHandler (stack : List ChainRun) (run : Handler Watch) (plain : Handler Thread) : Prop :=
  ∀ receiver args w, w.stack = stack → w.Balanced →
    Faithful w (run receiver args w) (plain receiver args w.thread)

/-- Calls of detoured methods run alike, whatever stack there is. -/
def FaithfulCalls (enter : Handle → Handler Watch) (enter' : Handle → Handler Thread) : Prop :=
  ∀ stack method, FaithfulHandler stack (enter method) (enter' method)

namespace Faithful

variable {w : Watch} {run : α × Watch} {plain : α × Thread}

theorem of_balanced (a : α) (h : w.Balanced) : Faithful w (a, w) (a, w.thread) :=
  ⟨rfl, rfl, .refl h⟩

theorem eq_thread (h : Faithful w run plain) : plain = (run.1, run.2.thread) :=
  Prod.ext h.value.symm h.thread.symm

theorem after {w₀ : Watch} (h : Faithful w run plain) (hleads : Leads w₀ w) :
    Faithful w₀ run plain :=
  ⟨h.value, h.thread, hleads.trans h.leads⟩

end Faithful

/-! ## What a hook does -/

section Run

variable {enter : Handle → Handler Watch} {enter' : Handle → Handler Thread}
variable {stack : List ChainRun}

theorem run_faithful (hcalls : FaithfulCalls enter enter') {next : ν → Handler Watch}
    {next' : ν → Handler Thread} (hnext : ∀ v, FaithfulHandler stack (next v) (next' v))
    (isInnermost : ν → Bool) (p : Program ν α) {w : Watch} (hstack : w.stack = stack)
    (hbalanced : w.Balanced) :
    Faithful w (p.run (Watched.services enter next isInnermost) w)
      (p.run (Pipeline.services enter' next' isInnermost) w.thread) := by
  induction p generalizing w with
  | done value => exact .of_balanced value hbalanced
  | next v receiver args resume ih =>
      have h := hnext v receiver args w hstack hbalanced
      show Faithful w _ ((resume (next' v receiver args w.thread).1).run _
        (next' v receiver args w.thread).2)
      rw [h.eq_thread]
      exact (ih _ (h.leads.stack.trans hstack) h.leads.balanced).after h.leads
  | isInnermost v resume ih => exact ih _ hstack hbalanced
  | call method receiver args resume ih =>
      have h := hcalls stack method receiver args w hstack hbalanced
      show Faithful w _ ((resume (enter' method receiver args w.thread).1).run _
        (enter' method receiver args w.thread).2)
      rw [h.eq_thread]
      exact (ih _ (h.leads.stack.trans hstack) h.leads.balanced).after h.leads
  | edit method change resume ih =>
      have h := ih (w.edit method change).1 (w := (w.edit method change).2) hstack hbalanced
      exact ⟨h.value, h.thread, h.leads.stack, h.leads.balanced, h.leads.noted⟩
  | depth resume ih =>
      -- Here the notes answer for the one, and the height of the stack for the other.
      show Faithful w ((resume w.running).run _ w) ((resume w.thread.depth).run _ w.thread)
      rw [← hbalanced.running_eq]
      exact ih w.running hstack hbalanced
  | log line resume ih =>
      have h := ih (w := w.log line) hstack hbalanced
      exact ⟨h.value, h.thread, h.leads.stack, h.leads.balanced, h.leads.noted⟩
  | consult resume ih => exact ih _ hstack hbalanced

theorem run_plain_faithful (hcalls : FaithfulCalls enter enter') (p : Program Empty α)
    {w : Watch} (hbalanced : w.Balanced) :
    Faithful w (p.run (Watched.plainServices enter) w)
      (p.run (Pipeline.plainServices enter') w.thread) := by
  unfold Watched.plainServices Pipeline.plainServices
  exact run_faithful hcalls (fun v => v.elim) _ p rfl hbalanced

end Run

/-! ## The hooks around a call -/

section Chain

variable (around : Surroundings)
variable {enter : Handle → Handler Watch} {enter' : Handle → Handler Thread}

theorem getElem?_of_stack {outer : List ChainRun} {own : ChainRun} {w : Watch}
    (h : w.stack = outer ++ [own]) :
    w.stack[outer.length]? = some own ∧ w.thread.frames[outer.length]? = some own.frame := by
  have hfound : w.stack[outer.length]? = some own := by
    rw [h]
    exact List.getElem?_concat_length
  refine ⟨hfound, ?_⟩
  rw [thread, List.getElem?_map, hfound]
  rfl

/-- While a hook goes on through the handle of a run, the frame of that run is
the last on the stack. -/
theorem callNext_faithful (hcalls : FaithfulCalls enter enter') {outer : List ChainRun}
    {own : ChainRun} {remaining : Nat} (hle : remaining ≤ own.frame.hooks.length) :
    FaithfulHandler (outer ++ [own]) (Watched.callNext around enter own outer.length remaining)
      (Pipeline.callNext around enter' outer.length remaining) := by
  induction remaining with
  | zero =>
      intro receiver args w hstack hbalanced
      obtain ⟨hfound, hframe⟩ := getElem?_of_stack hstack
      have hnoted := Leads.note_used hstack hbalanced hle
      rw [Watched.callNext, Pipeline.callNext, hframe, hfound]
      exact (run_plain_faithful hcalls _ hnoted.balanced).after hnoted
  | succ index ih =>
      intro receiver args w hstack hbalanced
      obtain ⟨hfound, hframe⟩ := getElem?_of_stack hstack
      have hnoted := Leads.note_used hstack hbalanced hle
      have hhook := List.getElem?_eq_getElem hle
      rw [Watched.callNext, Pipeline.callNext, hframe, hfound]
      simp only [hhook]
      -- The hook's own handle leads to this frame too, one hook further in.
      exact (run_faithful hcalls (fun _ => ih (Nat.le_of_succ_le hle)) _ _
        (hnoted.stack.trans hstack) hnoted.balanced).after hnoted

theorem runChain_faithful (hcalls : FaithfulCalls enter enter') (hooks : List HookId)
    (target : Target) (receiver : Option Value) (args : List Value) {w : Watch}
    (hbalanced : w.Balanced) :
    Faithful w (Watched.runChain around enter hooks target receiver args w)
      (Pipeline.runChain around enter' hooks target receiver args w.thread) := by
  have h := callNext_faithful around hcalls (Nat.le_refl hooks.length) receiver args
    (w.push ⟨w.started, ⟨hooks, target⟩⟩) rfl (Leads.balanced_push hbalanced _)
  rw [thread_push] at h
  rw [Pipeline.runChain, length_frames_thread, h.eq_thread]
  refine ⟨rfl, ?_, h.leads.nest⟩
  rw [Watched.runChain, thread_pop]

theorem runInner_faithful (hcalls : FaithfulCalls enter enter') (method : Handle)
    (target : Target) (receiver : Option Value) (args : List Value) {w : Watch}
    (hbalanced : w.Balanced) :
    Faithful w (Watched.runInner around enter method target receiver args w)
      (Pipeline.runInner around enter' method target receiver args w.thread) := by
  rw [Watched.runInner, Pipeline.runInner, show w.thread.lists = w.lists from rfl]
  cases (w.lists method).chain with
  | nil => exact run_plain_faithful hcalls (target.invoke receiver args) hbalanced
  | cons hook rest =>
      exact runChain_faithful around hcalls (hook :: rest) target receiver args hbalanced

end Chain

/-! ## The hooks before and after a call -/

section Phases

variable (around : Surroundings)
variable {enter : Handle → Handler Watch} {enter' : Handle → Handler Thread}

theorem runBefore_faithful (hcalls : FaithfulCalls enter enter') (receiver : Option Value)
    (hooks : List HookId) (args : List Value) {w : Watch} (hbalanced : w.Balanced) :
    Faithful w (Watched.runBefore around enter receiver hooks args w)
      (Pipeline.runBefore around enter' receiver hooks args w.thread) := by
  induction hooks generalizing args w with
  | nil => exact .of_balanced _ hbalanced
  | cons hook rest ih =>
      have h := run_plain_faithful hcalls (around.behaviours.before hook receiver args) hbalanced
      rw [Watched.runBefore, Pipeline.runBefore, h.eq_thread]
      rcases hrun : (around.behaviours.before hook receiver args).run
        (Watched.plainServices enter) w with ⟨⟨verdict, args'⟩, w'⟩
      have hleads := h.leads
      rw [hrun] at hleads
      cases verdict with
      | error error => exact (Faithful.of_balanced _ hleads.balanced).after hleads
      | ok verdict =>
          by_cases hprevent : verdict.prevent = true
          · simp only [hprevent, if_true]
            exact (Faithful.of_balanced _ hleads.balanced).after hleads
          · simp only [hprevent]
            exact (ih args' hleads.balanced).after hleads

theorem runAfter_faithful (hcalls : FaithfulCalls enter enter') (receiver : Option Value)
    (hooks : List HookId) (answer : Answer) {w : Watch} (hbalanced : w.Balanced) :
    Faithful w (Watched.runAfter around enter receiver hooks answer w)
      (Pipeline.runAfter around enter' receiver hooks answer w.thread) := by
  induction hooks generalizing answer w with
  | nil => exact .of_balanced answer hbalanced
  | cons hook rest ih =>
      rw [Watched.runAfter, Pipeline.runAfter]
      cases answer.result with
      | error error => exact .of_balanced answer hbalanced
      | ok value =>
          have h := run_plain_faithful hcalls
            (around.behaviours.after hook value receiver answer.args) hbalanced
          simp only [h.eq_thread]
          exact (ih _ h.leads.balanced).after h.leads

end Phases

/-! ## Whole calls -/

section Calls

variable {around : Surroundings}
variable {enter : Handle → Handler Watch} {enter' : Handle → Handler Thread}

theorem runCall_faithful (hcalls : FaithfulCalls enter enter') (method : Handle)
    (target : Target) (receiver : Option Value) (args : List Value) {w : Watch}
    (hbalanced : w.Balanced) :
    Faithful w (Watched.runCall around enter method target receiver args w)
      (Pipeline.runCall around enter' method target receiver args w.thread) := by
  have hbefore := runBefore_faithful around hcalls receiver (w.lists method).before args hbalanced
  rw [Watched.runCall, Pipeline.runCall, show w.thread.lists = w.lists from rfl,
    hbefore.eq_thread]
  rcases hrun : Watched.runBefore around enter receiver (w.lists method).before args w with
    ⟨⟨opening, args'⟩, w'⟩
  have hleads := hbefore.leads
  rw [hrun] at hleads
  rcases opening with error | prevented
  · exact (Faithful.of_balanced _ hleads.balanced).after hleads
  · cases prevented with
    | some value =>
        exact (runAfter_faithful around hcalls receiver _ _ hleads.balanced).after hleads
    | none =>
        have hinner := runInner_faithful around hcalls method target receiver args' hleads.balanced
        simp only [hinner.eq_thread]
        rcases hcall : Watched.runInner around enter method target receiver args' w' with
          ⟨⟨result, args''⟩, w''⟩
        have hthrough := hleads.trans hinner.leads
        rw [hcall] at hthrough
        cases result with
        | ok value =>
            exact (runAfter_faithful around hcalls receiver _ _ hthrough.balanced).after hthrough
        | error error => exact (Faithful.of_balanced _ hthrough.balanced).after hthrough

theorem call_faithful (around : Surroundings) (fuel : Nat) :
    FaithfulCalls (Watched.call around fuel) (Pipeline.call around fuel) := by
  induction fuel with
  | zero => exact fun _ _ _ _ _ _ hbalanced => .of_balanced _ hbalanced
  | succ fuel ih =>
      intro stack method receiver args w hstack hbalanced
      rw [Watched.call, Pipeline.call]
      cases around.target? method with
      | none => exact .of_balanced _ hbalanced
      | some target => exact runCall_faithful ih method target receiver args hbalanced

/-- What the notes of a call say, and the thread with them. -/
structure Disciplined (t : Thread) (run : Answer × Watch) (plain : Answer × Thread) : Prop where
  /-- Hooks that ask are told how many chains are running, by the notes, and
  the call is the one that nobody watches. -/
  answer : run.1 = plain.1
  thread : run.2.thread = plain.2
  /-- A handle leads to the frame of its own run. -/
  found : ∀ own remaining found, .used own remaining found ∈ run.2.moments → found = some own
  inBounds : ∀ own index found, .used own (index + 1) found ∈ run.2.moments →
    ∃ hook, own.frame.hooks[index]? = some hook
  /-- A run leaves the stack that it found, whatever it came to. -/
  restored : ∀ own before after, .ended own before after ∈ run.2.moments → after = before
  /-- The runs are numbered on from those that were there, so none is taken for another. -/
  numbered : ∃ count, (run.2.moments.filterMap Moment.begun?).map ChainRun.number =
    List.range' t.frames.length count
  /-- All that has begun has ended, in the reverse order. -/
  nested : Follows t.frames.length (ofThread t).stack run.2.moments run.2.started
    (ofThread t).stack
  stack : run.2.stack = (ofThread t).stack
  frames : plain.2.frames = t.frames

theorem thread_ofThread (t : Thread) : (ofThread t).thread = t := by
  have hframes : (t.frames.mapIdx ChainRun.mk).map ChainRun.frame = t.frames :=
    List.ext_getElem (by simp) fun i _ _ => by simp
  rw [thread, ofThread, hframes]

theorem balanced_ofThread (t : Thread) : (ofThread t).Balanced := by
  simp [Balanced, started, returned, ofThread]

/-- **Frames obey a stack discipline**, whatever hooks do and however deep calls
are nested. -/
theorem callTarget_disciplined (around : Surroundings) (fuel : Nat) (method : Handle)
    (target : Target) (receiver : Option Value) (args : List Value) (t : Thread) :
    Disciplined t (Watched.callTarget around fuel method target receiver args (.ofThread t))
      (Pipeline.callTarget around fuel method target receiver args t) := by
  have h : Faithful (ofThread t)
      (Watched.callTarget around fuel method target receiver args (.ofThread t))
      (Pipeline.callTarget around fuel method target receiver args (ofThread t).thread) :=
    runCall_faithful (call_faithful around fuel) method target receiver args (balanced_ofThread t)
  rw [thread_ofThread] at h
  obtain ⟨log, hmoments, hfollows⟩ := h.leads.noted
  have hlog : (Watched.callTarget around fuel method target receiver args (.ofThread t)).2.moments =
      log := hmoments
  rw [h.leads.stack] at hfollows
  constructor
  case answer => exact h.value
  case thread => exact h.thread
  case found =>
    intro own remaining found hmem
    exact (hfollows.of_used (hlog ▸ hmem)).1
  case inBounds =>
    intro own index found hmem
    exact ⟨_, List.getElem?_eq_getElem (hfollows.of_used (hlog ▸ hmem)).2⟩
  case restored =>
    intro own before after hmem
    exact hfollows.of_ended (hlog ▸ hmem)
  case numbered =>
    obtain ⟨count, -, hnumbers⟩ := hfollows.numbers
    rw [hlog]
    exact ⟨count, hnumbers⟩
  case nested =>
    rw [hlog]
    exact hfollows
  case stack => exact h.leads.stack
  case frames =>
    have hstart := congrArg Thread.frames (thread_ofThread t)
    rw [← h.thread, thread, h.leads.stack]
    exact hstart

end Calls

end Watch

end Reroute
