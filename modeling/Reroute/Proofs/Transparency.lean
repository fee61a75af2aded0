import Mathlib.Data.List.Induction
import Reroute.Proofs.Crafting
import Reroute.Proofs.HookRuns
import Reroute.Proofs.Invoking
import Reroute.Proofs.Layering
/-!
# Detours that change nothing

A hook lets calls pass if it proceeds, or goes on once with what it was given and
returns what comes back, or returns the result that it was given
(`Behaviours.Transparent`). It may do anything else besides: write lines, ask for the
depth, call other methods, even edit hooks. What neither it nor any other hook must do
is to give the method a hook that does not let calls pass (`Behaviours.Keeps`).

With such hooks only, and with any number of them, the proxy of a detour does what a
proxy of the bare clone does (`Request.wrapped_of_detour`). The two go different ways:
the one splits the receiver off, runs the hooks and puts the receiver in front again for
the clone, the other hands all arguments to the clone as they are.
-/

namespace Reroute

/-! ## Hooks that let calls pass -/

namespace Program

variable {ν α : Type}

/-- Whatever comes back from its operations, a program makes only edits that are
allowed. -/
def Edits (allowed : Handle → HookEdit → Prop) : Program ν α → Prop
  | .done _ => True
  | .next _ _ _ resume => ∀ answer, (resume answer).Edits allowed
  | .isInnermost _ resume => ∀ b, (resume b).Edits allowed
  | .call _ _ _ resume => ∀ answer, (resume answer).Edits allowed
  | .edit method change resume => allowed method change ∧ ∀ made, (resume made).Edits allowed
  | .depth resume => ∀ n, (resume n).Edits allowed
  | .log _ resume => resume.Edits allowed
  | .consult resume => ∀ lines, (resume lines).Edits allowed

/-- Whatever comes back, a program ends in a good way without going on through a
handle. -/
def EndsIn (good : α → Prop) : Program ν α → Prop
  | .done value => good value
  | .next .. => False
  | .isInnermost _ resume => ∀ b, (resume b).EndsIn good
  | .call _ _ _ resume => ∀ answer, (resume answer).EndsIn good
  | .edit _ _ resume => ∀ made, (resume made).EndsIn good
  | .depth resume => ∀ n, (resume n).EndsIn good
  | .log _ resume => resume.EndsIn good
  | .consult resume => ∀ lines, (resume lines).EndsIn good

/-- Whatever comes back, a program goes on once through a handle, with this receiver and
these arguments, and ends with the answer. -/
def PassesOn (receiver : Option Value) (args : List Value) : Program ν Answer → Prop
  | .done _ => False
  | .next _ receiver' args' resume =>
    receiver' = receiver ∧ args' = args ∧ ∀ answer, (resume answer).EndsIn (· = answer)
  | .isInnermost _ resume => ∀ b, (resume b).PassesOn receiver args
  | .call _ _ _ resume => ∀ answer, (resume answer).PassesOn receiver args
  | .edit _ _ resume => ∀ made, (resume made).PassesOn receiver args
  | .depth resume => ∀ n, (resume n).PassesOn receiver args
  | .log _ resume => resume.PassesOn receiver args
  | .consult resume => ∀ lines, (resume lines).PassesOn receiver args

theorem run_of_endsIn {σ : Type} {good : α → Prop} (services : Services ν σ) (p : Program ν α)
    (h : p.EndsIn good) (s : σ) : good (p.run services s).1 := by
  induction p generalizing s with
  | done value => exact h
  | next handle receiver args resume => exact h.elim
  | isInnermost handle resume ih => exact ih _ (h _) _
  | call method receiver args resume ih => exact ih _ (h _) _
  | edit method change resume ih => exact ih _ (h _) _
  | depth resume ih => exact ih _ (h _) _
  | log line resume ih => exact ih h _
  | consult resume ih => exact ih _ (h _) _

end Program

namespace Behaviours

/-- A hook that lets calls pass, in the phase that it is registered for. -/
def Transparent (b : Behaviours) : HookPhase → HookId → Prop
  | .before, hook => ∀ receiver args, (b.before hook receiver args).EndsIn fun outcome =>
      ∃ verdict, outcome = (.ok verdict, args) ∧ verdict.prevent = false
  | .chain, hook => ∀ receiver args, (b.chain hook receiver args).PassesOn receiver args
  | .after, hook => ∀ value receiver args,
      (b.after hook value receiver args).EndsIn (· = ⟨.ok value, args⟩)

/-- All hooks let calls pass. -/
def Quiet (b : Behaviours) (h : HookLists) : Prop :=
  ∀ phase, ∀ hook ∈ h.get phase, b.Transparent phase hook

/-- A change that gives a method no hook but one that lets calls pass. -/
def Keeps (b : Behaviours) (method : Handle) (edited : Handle) (change : HookEdit) : Prop :=
  edited = method → ∀ phase hook, change = .add phase hook → b.Transparent phase hook

/-- No hook, whatever method it belongs to, makes any other change. -/
structure KeepsQuiet (b : Behaviours) (method : Handle) : Prop where
  before : ∀ hook receiver args, (b.before hook receiver args).Edits (b.Keeps method)
  chain : ∀ hook receiver args, (b.chain hook receiver args).Edits (b.Keeps method)
  after : ∀ hook value receiver args, (b.after hook value receiver args).Edits (b.Keeps method)

variable {b : Behaviours} {method edited : Handle} {change : HookEdit} {h : HookLists}

theorem quiet_apply (hquiet : b.Quiet h)
    (hadd : ∀ phase hook, change = .add phase hook → b.Transparent phase hook) :
    b.Quiet (change.apply h).2 := by
  obtain ⟨made, list, hstep, happly⟩ := change.exists_step h
  intro phase hook hmem
  rw [happly] at hmem
  by_cases hphase : phase = change.phase
  · subst hphase
    rw [HookLists.get_set_self] at hmem
    have hold := hquiet change.phase
    generalize h.get change.phase = old at hstep hold
    cases hstep with
    | appended fresh =>
        rcases List.mem_append.mp hmem with hmem | hmem
        · exact hold hook hmem
        · rw [List.mem_singleton.mp hmem]
          exact hadd _ _ rfl
    | refused | absent => exact hold hook hmem
    | removed last =>
        refine hold hook ?_
        rcases List.mem_append.mp hmem with hmem | hmem
        · exact List.mem_append_left _ hmem
        · exact List.mem_append_right _ (List.mem_cons_of_mem _ hmem)
  · rw [HookLists.get_set_of_ne hphase] at hmem
    exact hquiet phase hook hmem

/-- What leaves a quiet method quiet. -/
def Steady (b : Behaviours) (method : Handle) (handler : Handler Circumstances) : Prop :=
  ∀ receiver args c, b.Quiet (c.lists method) → b.Quiet ((handler receiver args c).2.lists method)

theorem quiet_edit {c : Circumstances} (hquiet : b.Quiet (c.lists method))
    (hkeeps : b.Keeps method edited change) : b.Quiet ((c.edit edited change).2.lists method) := by
  show b.Quiet (if method = edited then (change.apply (c.lists edited)).2 else c.lists method)
  split
  · rename_i heq
    subst heq
    exact quiet_apply hquiet (hkeeps rfl)
  · exact hquiet

section run

variable {ν α : Type} {enter : Handle → Handler Circumstances} {next : ν → Handler Circumstances}
  {c : Circumstances}

theorem quiet_run (henter : ∀ other, b.Steady method (enter other))
    (hnext : ∀ v, b.Steady method (next v)) (isInnermost : ν → Bool) (p : Program ν α)
    (hp : p.Edits (b.Keeps method)) (hc : b.Quiet (c.lists method)) :
    b.Quiet ((p.run (Onion.services enter next isInnermost) c).2.lists method) := by
  induction p generalizing c with
  | done value => exact hc
  | next v receiver args resume ih => exact ih _ (hp _) (hnext v receiver args c hc)
  | isInnermost v resume ih => exact ih _ (hp _) hc
  | call other receiver args resume ih => exact ih _ (hp _) (henter other receiver args c hc)
  | edit other change resume ih => exact ih _ (hp.2 _) (quiet_edit hc hp.1)
  | depth resume ih => exact ih _ (hp _) hc
  | log line resume ih => exact ih (c := c.log line) hp hc
  | consult resume ih => exact ih _ (hp _) hc

/-- A program that passes a call on gives its answer. -/
theorem run_of_passesOn (henter : ∀ other, b.Steady method (enter other))
    {receiver : Option Value} {args : List Value} {answer : Answer}
    (hnext : ∀ v c, b.Quiet (c.lists method) → (next v receiver args c).1 = answer)
    (isInnermost : ν → Bool) (p : Program ν Answer) (hp : p.Edits (b.Keeps method))
    (hpasses : p.PassesOn receiver args) (hc : b.Quiet (c.lists method)) :
    (p.run (Onion.services enter next isInnermost) c).1 = answer := by
  induction p generalizing c with
  | done value => exact hpasses.elim
  | next v receiver' args' resume =>
      obtain ⟨rfl, rfl, hends⟩ := hpasses
      have hanswer := (resume (next v receiver' args' c).1).run_of_endsIn
        (Onion.services enter next isInnermost) (hends _) (next v receiver' args' c).2
      exact hanswer.trans (hnext v c hc)
  | isInnermost v resume ih => exact ih _ (hp _) (hpasses _) hc
  | call other receiver args resume ih =>
      exact ih _ (hp _) (hpasses _) (henter other receiver args c hc)
  | edit other change resume ih => exact ih _ (hp.2 _) (hpasses _) (quiet_edit hc hp.1)
  | depth resume ih => exact ih _ (hp _) (hpasses _) hc
  | log line resume ih => exact ih (c := c.log line) hp hpasses hc
  | consult resume ih => exact ih _ (hp _) (hpasses _) hc

end run

end Behaviours

/-! ## Calls that leave a method quiet -/

section steady

variable {b : Behaviours} {method : Handle} {enter : Handle → Handler Circumstances}
  {target : Target}

/-- A clone that does not edit hooks. -/
def Target.KeepsQuiet (target : Target) (b : Behaviours) (method : Handle) : Prop :=
  ∀ receiver args, (target.invoke receiver args).Edits (b.Keeps method)

theorem Target.keepsQuiet_ofCompiled (hasReceiver : Bool) (compiled : Compiled) (b : Behaviours)
    (method : Handle) : (Target.ofCompiled hasReceiver compiled).KeepsQuiet b method := by
  intro receiver args
  cases hasReceiver <;> exact trivial

theorem quiet_plain {α : Type} (henter : ∀ other, b.Steady method (enter other))
    (p : Program Empty α) (hp : p.Edits (b.Keeps method)) {c : Circumstances}
    (hc : b.Quiet (c.lists method)) :
    b.Quiet ((p.run (Onion.plainServices enter) c).2.lists method) :=
  Behaviours.quiet_run henter (fun v => v.elim) _ p hp hc

theorem steady_clone (henter : ∀ other, b.Steady method (enter other))
    (htarget : target.KeepsQuiet b method) : b.Steady method (Onion.clone enter target) := by
  intro receiver args c hc
  rw [Onion.clone_eq]
  exact quiet_plain henter _ (htarget receiver args) hc

section

variable (hkeeps : b.KeepsQuiet method) (henter : ∀ other, b.Steady method (enter other))

include hkeeps henter

theorem steady_layers (htarget : target.KeepsQuiet b method) (hooks : List HookId) :
    b.Steady method (Onion.layers b enter hooks target).run := by
  induction hooks using List.reverseRecOn with
  | nil => exact steady_clone henter htarget
  | append_singleton rest hook ih =>
      intro receiver args c hc
      rw [Onion.layers, List.foldl_append]
      exact Behaviours.quiet_run henter (fun _ => ih) _ _ (hkeeps.chain hook receiver args) hc

theorem quiet_openWith (receiver : Option Value) (hooks : List HookId) (state : Onion.Opening)
    (hstate : b.Quiet (state.2.lists method)) :
    b.Quiet ((hooks.foldl (Onion.openWith b enter receiver) state).2.lists method) := by
  refine List.foldlRecOn (motive := fun state : Onion.Opening => b.Quiet (state.2.lists method))
    hooks _ hstate fun state hstate hook _ => ?_
  obtain ⟨⟨opening, args⟩, c⟩ := state
  cases opening with
  | error e => exact hstate
  | ok decided =>
      cases decided with
      | some value => exact hstate
      | none => exact quiet_plain henter _ (hkeeps.before hook receiver args) hstate

theorem quiet_closeWith (receiver : Option Value) (hooks : List HookId)
    (state : Answer × Circumstances) (hstate : b.Quiet (state.2.lists method)) :
    b.Quiet ((hooks.foldl (Onion.closeWith b enter receiver) state).2.lists method) := by
  refine List.foldlRecOn (motive := fun state : Answer × Circumstances =>
    b.Quiet (state.2.lists method)) hooks _ hstate fun state hstate hook _ => ?_
  obtain ⟨⟨result, args⟩, c⟩ := state
  cases result with
  | error e => exact hstate
  | ok value => exact quiet_plain henter _ (hkeeps.after hook value receiver args) hstate

theorem steady_inner (htarget : target.KeepsQuiet b method) (hooks : List HookId) :
    b.Steady method (Onion.inner b enter hooks target) := by
  intro receiver args c hc
  unfold Onion.inner
  split
  · exact steady_clone henter htarget receiver args c hc
  · exact steady_layers hkeeps henter htarget hooks receiver args { c with depth := c.depth + 1 } hc

theorem steady_runCall (htarget : target.KeepsQuiet b method) (called : Handle) :
    b.Steady method (Onion.runCall b enter called target) := by
  intro receiver args c hc
  unfold Onion.runCall
  have hopened := quiet_openWith hkeeps henter receiver (c.lists called).before
    ((.ok none, args), c) hc
  rcases hrun : (c.lists called).before.foldl (Onion.openWith b enter receiver)
    ((.ok none, args), c) with ⟨⟨opening, args'⟩, c'⟩
  rw [hrun] at hopened
  cases opening with
  | error e => exact quiet_closeWith hkeeps henter receiver _ _ hopened
  | ok decided =>
      cases decided with
      | some value => exact quiet_closeWith hkeeps henter receiver _ _ hopened
      | none =>
          have hinner := steady_inner hkeeps henter htarget (c'.lists called).chain receiver args'
            c' hopened
          exact quiet_closeWith hkeeps henter receiver _ _ hinner

end

/-- Whatever is called, and however deep calls are nested. -/
theorem steady_call {around : Surroundings} (hkeeps : around.behaviours.KeepsQuiet method)
    (htargets : ∀ called target, around.target? called = some target →
      target.KeepsQuiet around.behaviours method) (fuel : Nat) (called : Handle) :
    around.behaviours.Steady method (Onion.call around fuel called) := by
  induction fuel generalizing called with
  | zero => exact fun receiver args c hc => hc
  | succ fuel ih =>
      intro receiver args c hc
      unfold Onion.call
      cases htarget : around.target? called with
      | none => exact hc
      | some target =>
          exact steady_runCall hkeeps ih (htargets called target htarget) called receiver args c hc

end steady

/-! ## Calls that pass -/

section passing

variable {b : Behaviours} {method : Handle} {enter : Handle → Handler Circumstances}
  {target : Target} {receiver : Option Value} {args : List Value} {c : Circumstances}

/-- What the clone alone answers. -/
def Target.bare (hasReceiver : Bool) (compiled : Compiled) (receiver : Option Value)
    (args : List Value) : Answer :=
  if hasReceiver then handBack args (compiled (receiver.getD .null :: args)) else compiled args

variable {answer : Answer}

/-- A caller whose arguments keep their number gets all of them back. What the clone has
put in the place of the receiver is dropped. -/
theorem Target.handBack_of_ok {value first : Value} {changed : List Value}
    (hresult : answer.result = .ok value) (hargs : answer.args = first :: changed)
    (hlength : changed.length = args.length) : handBack args answer = ⟨.ok value, changed⟩ := by
  have htake : changed.take args.length = changed :=
    List.take_of_length_le (Nat.le_of_eq hlength)
  have hdrop : args.drop changed.length = [] :=
    List.drop_of_length_le (Nat.le_of_eq hlength.symm)
  simp only [handBack, hresult, hargs, List.drop_succ_cons, List.drop_zero, htake, hdrop,
    List.append_nil]

theorem Target.invoke_ofCompiled (hasReceiver : Bool) (compiled : Compiled) :
    (Target.ofCompiled hasReceiver compiled).invoke receiver args =
      .done (Target.bare hasReceiver compiled receiver args) := by
  cases hasReceiver <;> rfl

theorem clone_eq_of_bare (hbare : target.invoke receiver args = .done answer) :
    (Onion.clone enter target receiver args c).1 = answer := by
  rw [Onion.clone_eq, hbare]
  rfl

section

variable {hooks : List HookId} (hkeeps : b.KeepsQuiet method)
  (henter : ∀ other, b.Steady method (enter other))

include hkeeps henter

/-- Hooks that let calls pass change nothing around a clone. -/
theorem run_layers (hbare : target.invoke receiver args = .done answer)
    (hhooks : ∀ hook ∈ hooks, b.Transparent .chain hook) (hc : b.Quiet (c.lists method)) :
    ((Onion.layers b enter hooks target).run receiver args c).1 = answer := by
  -- From the outermost hook in: what it goes on to is the chain without it.
  induction hooks using List.reverseRecOn generalizing c with
  | nil => exact clone_eq_of_bare hbare
  | append_singleton rest hook ih =>
      have hrest : ∀ hook ∈ rest, b.Transparent .chain hook := fun other hother =>
        hhooks other (List.mem_append_left _ hother)
      have hhook := hhooks hook (List.mem_append_right _ List.mem_cons_self)
      rw [Onion.layers, List.foldl_append]
      exact Behaviours.run_of_passesOn henter (fun _ c hc => ih hrest hc) _ _
        (hkeeps.chain hook receiver args) (hhook receiver args) hc

theorem inner_eq (hbare : target.invoke receiver args = .done answer)
    (hhooks : ∀ hook ∈ hooks, b.Transparent .chain hook) (hc : b.Quiet (c.lists method)) :
    (Onion.inner b enter hooks target receiver args c).1 = answer := by
  unfold Onion.inner
  split
  · exact clone_eq_of_bare hbare
  · exact run_layers (c := { c with depth := c.depth + 1 }) hkeeps henter hbare hhooks hc

/-- A call is still open when all hooks before it have let it pass. -/
theorem openWith_eq (receiver : Option Value) (args : List Value)
    (hhooks : ∀ hook ∈ hooks, b.Transparent .before hook) (hc : b.Quiet (c.lists method)) :
    ∃ c', hooks.foldl (Onion.openWith b enter receiver) ((.ok none, args), c) =
      ((.ok none, args), c') ∧ b.Quiet (c'.lists method) := by
  induction hooks generalizing c with
  | nil => exact ⟨c, rfl, hc⟩
  | cons hook rest ih =>
      obtain ⟨hhook, hrest⟩ := List.forall_mem_cons.mp hhooks
      obtain ⟨verdict, hverdict, hproceeds⟩ := (b.before hook receiver args).run_of_endsIn
        (Onion.plainServices enter) (hhook receiver args) c
      have hquiet := quiet_plain henter _ (hkeeps.before hook receiver args) hc
      rw [List.foldl_cons, Onion.openWith]
      rcases hrun : (b.before hook receiver args).run (Onion.plainServices enter) c with
        ⟨outcome, c'⟩
      rw [hrun] at hverdict hquiet
      subst hverdict
      simp only [Except.map, hproceeds]
      exact ih hrest hquiet

theorem closeWith_eq (hhooks : ∀ hook ∈ hooks, b.Transparent .after hook)
    (hc : b.Quiet (c.lists method)) :
    (hooks.foldl (Onion.closeWith b enter receiver) (answer, c)).1 = answer := by
  obtain ⟨result, args⟩ := answer
  cases result with
  | error e =>
      show (hooks.foldl (Onion.closeWith b enter receiver) (.fail e args, c)).1 = _
      rw [foldl_closeWith_of_error ⟨fun _ => none, b⟩]
      rfl
  | ok value =>
      induction hooks generalizing c with
      | nil => rfl
      | cons hook rest ih =>
          obtain ⟨hhook, hrest⟩ := List.forall_mem_cons.mp hhooks
          have hsame := (b.after hook value receiver args).run_of_endsIn
            (Onion.plainServices enter) (hhook value receiver args) c
          have hquiet := quiet_plain henter _ (hkeeps.after hook value receiver args) hc
          rw [List.foldl_cons, Onion.closeWith]
          rcases hrun : (b.after hook value receiver args).run (Onion.plainServices enter) c with
            ⟨outcome, c'⟩
          rw [hrun] at hsame hquiet
          subst hsame
          exact ih hrest hquiet

/-- A call of a quiet method gives what the clone alone gives. -/
theorem runCall_eq (htarget : target.KeepsQuiet b method)
    (hbare : target.invoke receiver args = .done answer) (hc : b.Quiet (c.lists method)) :
    (Onion.runCall b enter method target receiver args c).1 = answer := by
  -- Each list is taken when its phase begins, so the method has to be quiet then.
  obtain ⟨c', hopened, hquiet⟩ := openWith_eq hkeeps henter receiver args (hc .before) hc
  have hinner := inner_eq hkeeps henter hbare (hquiet .chain) hquiet
  have hafter := steady_inner hkeeps henter htarget (c'.lists method).chain receiver args c' hquiet
  unfold Onion.runCall
  rw [show (c.lists method).before = (c.lists method).get .before from rfl, hopened]
  dsimp only
  rcases hrun : Onion.inner b enter (c'.lists method).chain target receiver args c' with
    ⟨answer', c''⟩
  rw [show (c'.lists method).get .chain = (c'.lists method).chain from rfl, hrun] at hinner
  rw [hrun] at hafter
  dsimp only at hinner
  subst hinner
  exact closeWith_eq hkeeps henter (hafter .after) hafter

end

/-- So does the call with frames. -/
theorem callTarget_eq (around : Surroundings)
    (hkeeps : around.behaviours.KeepsQuiet method)
    (htargets : ∀ called target, around.target? called = some target →
      target.KeepsQuiet around.behaviours method)
    (fuel : Nat) (htarget : target.KeepsQuiet around.behaviours method)
    (hbare : target.invoke receiver args = .done answer) {t : Thread}
    (ht : around.behaviours.Quiet (t.lists method)) :
    (Pipeline.callTarget around fuel method target receiver args t).1 = answer := by
  have hsame : SameOutcome t.frames (Pipeline.callTarget around fuel method target receiver args t)
      (Onion.callTarget around fuel method target receiver args (.ofThread t)) :=
    runCall_sameHandler (call_sameCalls around fuel) t.frames method target receiver args t rfl
  exact hsame.value.trans
    (runCall_eq hkeeps (steady_call hkeeps htargets fuel) htarget hbare (c := .ofThread t) ht)

/-- Without hooks nobody can edit any while the clone is running. -/
theorem callTarget_eq_of_empty (around : Surroundings) (fuel : Nat)
    (hbare : target.invoke receiver args = .done answer) {t : Thread}
    (ht : t.lists method = .empty) :
    (Pipeline.callTarget around fuel method target receiver args t).1 = answer := by
  have hinner : Pipeline.runInner around (Pipeline.call around fuel) method target receiver args t =
      (answer, t) := by
    rw [Pipeline.runInner, ht]
    show (target.invoke receiver args).run _ t = _
    rw [hbare]
    rfl
  rw [Pipeline.callTarget, Pipeline.runCall, ht]
  dsimp only [HookLists.empty, Pipeline.runBefore]
  rw [hinner]
  dsimp only
  cases answer.result with
  | error e => rfl
  | ok value =>
      rw [ht]
      rfl

end passing

/-! ## The two proxies -/

/-- What an instance method can be called on: nothing, an object, or a text. -/
inductive Value.Receives : Value → Prop where
  | null : Receives .null
  | ref {handle : UInt64} (h : handle ≠ 0) : Receives (.ref handle)
  | str (text : String) : Receives (.str text)

theorem Value.Receives.convert {v : Value} (h : v.Receives) : v.convert .object = .ok v := by
  cases h with
  | null | str => rfl
  | ref h =>
      show Except.ok (if _ then _ else _) = _
      rw [if_neg h]

namespace Proxy

variable {σ : Type} {p q : Proxy σ} {s s' : σ} {receiver receiver' : Option Value}
  {params : List ParamType} {args : List Value} {e : Error}

/-- A call does not depend on more of the handler than on its answer. -/
theorem pass_congr (hret : p.signature.ret = q.signature.ret) (hcount : args.length = params.length)
    (hkept : ∀ boxed, (q.handler receiver' boxed s').1.args.length = boxed.length)
    (h : ∀ boxed, (p.handler receiver boxed s).1 = (q.handler receiver' boxed s').1) :
    (p.pass receiver params args s).1 = (q.pass receiver' params args s').1 := by
  cases hboxes : convertAll params args with
  | error e => rw [pass_of_unconverted hboxes, pass_of_unconverted hboxes]
  | ok boxed =>
      have hboxed := h boxed
      have hkeeps := (hkept boxed).trans (length_boxed hcount hboxes)
      rcases hrun : p.handler receiver boxed s with ⟨answer, t⟩
      rcases hrun' : q.handler receiver' boxed s' with ⟨answer', t'⟩
      rw [hrun, hrun'] at hboxed
      rw [hrun'] at hkeeps
      obtain rfl : answer = answer' := hboxed
      cases hresult : answer.result with
      | error e => rw [pass_of_failed hboxes hrun hresult, pass_of_failed hboxes hrun' hresult]
      | ok value =>
          rcases hwrite : writeBack params answer.args args with ⟨_ | _, slots⟩
          · rw [pass_of_unwritten hboxes hrun hresult hkeeps hwrite,
              pass_of_unwritten hboxes hrun' hresult hkeeps hwrite]
          · rw [pass_of_written hboxes hrun hresult hkeeps hwrite,
              pass_of_written hboxes hrun' hresult hkeeps hwrite, hret]

theorem convertAll_cons {param : ParamType} {arg : Value}
    (h : arg.convert param.element = .ok arg) :
    convertAll (param :: params) (arg :: args) = (convertAll params args).map (arg :: ·) := by
  have hcons : convertAll (param :: params) (arg :: args) =
      arg.convert param.element >>= fun first =>
        convertAll params args >>= fun rest => pure (first :: rest) := by
    rw [convertAll, List.zip_cons_cons, List.mapM_cons]
    rfl
  rw [hcons, h]
  cases convertAll params args <;> rfl

theorem writeBack_cons_of_byValue {param : ParamType} (h : param.byRef = false) (value slot : Value)
    (values : List Value) :
    writeBack (param :: params) (value :: values) (slot :: args) =
      ((writeBack params values args).1, slot :: (writeBack params values args).2) :=
  writeBack_cons_of_written (by rw [if_neg (by simp [h])])

/-- Splitting the receiver off and putting it back in front of the arguments does
nothing, if what the clone is given keeps its number. -/
theorem pass_handBack {object : Value} {compiled : Compiled} (hobject : object.Receives)
    (hret : p.signature.ret = q.signature.ret) (hcount : args.length = params.length)
    (hkept : ∀ flat, (compiled flat).args.length = flat.length)
    (hp : ∀ boxed, (p.handler (some object) boxed s).1 =
      Target.handBack boxed (compiled (object :: boxed)))
    (hq : ∀ flat, (q.handler receiver' flat s').1 = compiled flat) :
    (q.pass receiver' (.plain .object :: params) (object :: args) s').1 =
      { (p.pass (some object) params args s).1 with
        args := object :: (p.pass (some object) params args s).1.args } := by
  have hconvert : convertAll (.plain .object :: params) (object :: args) =
      (convertAll params args).map (object :: ·) := convertAll_cons hobject.convert
  cases hboxes : convertAll params args with
  | error e =>
      rw [hboxes] at hconvert
      rw [pass_of_unconverted hboxes, pass_of_unconverted hconvert]
      rfl
  | ok boxed =>
      rw [hboxes] at hconvert
      have hlength := length_boxed hcount hboxes
      have hkeeps := hkept (object :: boxed)
      have hboxed := hp boxed
      have hflat := hq (object :: boxed)
      rcases hrun : p.handler (some object) boxed s with ⟨answer, t⟩
      rcases hrun' : q.handler receiver' (object :: boxed) s' with ⟨answer', t'⟩
      rw [hrun] at hboxed
      rw [hrun'] at hflat
      dsimp only at hboxed hflat
      rw [← hflat] at hkeeps hboxed
      cases hresult : answer'.result with
      | error e =>
          have herror : answer.result = .error e := by
            rw [hboxed, Target.handBack, hresult]
            rfl
          rw [pass_of_failed hboxes hrun herror, pass_of_failed hconvert hrun' hresult]
          rfl
      | ok value =>
          obtain ⟨first, changed, hargs⟩ := List.exists_cons_of_length_eq_add_one hkeeps
          rw [hargs, List.length_cons, List.length_cons, Nat.add_right_cancel_iff] at hkeeps
          obtain rfl : answer = ⟨.ok value, changed⟩ :=
            hboxed.trans (Target.handBack_of_ok hresult hargs hkeeps)
          have hchanged : changed.length = params.length := hkeeps.trans hlength
          have hchanged' : answer'.args.length = (ParamType.plain .object :: params).length := by
            rw [hargs, List.length_cons, List.length_cons, hchanged]
          have hwrite' : writeBack (.plain .object :: params) answer'.args (object :: args) =
              ((writeBack params changed args).1, object :: (writeBack params changed args).2) := by
            rw [hargs, writeBack_cons_of_byValue rfl]
          rcases hwrite : writeBack params changed args with ⟨_ | _, slots⟩
          · rw [hwrite] at hwrite'
            rw [pass_of_unwritten hboxes hrun rfl hchanged hwrite,
              pass_of_unwritten hconvert hrun' hresult hchanged' hwrite']
            rfl
          · rw [hwrite] at hwrite'
            rw [pass_of_written hboxes hrun rfl hchanged hwrite,
              pass_of_written hconvert hrun' hresult hchanged' hwrite', hret]

/-- Two proxies without a receiver and with the same answers. -/
theorem invoke_static_congr (hp : p.binding = .static) (hq : q.binding = .static)
    (hparams : p.signature.params = q.signature.params) (hret : p.signature.ret = q.signature.ret)
    (hkept : ∀ boxed, (q.handler none boxed s').1.args.length = boxed.length)
    (h : ∀ boxed, (p.handler none boxed s).1 = (q.handler none boxed s').1) :
    (p.invoke args s).1 = (q.invoke args s').1 := by
  unfold invoke
  rw [hparams, hp, hq]
  by_cases hcount : args.length = q.signature.params.length
  · rw [if_neg (not_not_intro hcount), if_neg (not_not_intro hcount)]
    exact pass_congr hret hcount hkept h
  · rw [if_pos hcount, if_pos hcount]

/-- A proxy that splits the receiver off, and one that does not. -/
theorem invoke_thisCall_eq {compiled : Compiled} (hp : p.binding = .thisCall)
    (hq : q.binding = .static) (hparams : p.signature.params = .plain .object :: params)
    (hparams' : q.signature.params = .plain .object :: params)
    (hret : p.signature.ret = q.signature.ret)
    (hreceiver : ∀ object, args.head? = some object → object.Receives)
    (hkept : ∀ flat, (compiled flat).args.length = flat.length)
    (h : ∀ object boxed, (p.handler (some object) boxed s).1 =
      Target.handBack boxed (compiled (object :: boxed)))
    (h' : ∀ flat, (q.handler none flat s').1 = compiled flat) :
    (p.invoke args s).1 = (q.invoke args s').1 := by
  unfold invoke
  rw [hparams, hparams', hp, hq]
  by_cases hcount : args.length = (ParamType.plain .object :: params).length
  · rw [if_neg (not_not_intro hcount), if_neg (not_not_intro hcount)]
    obtain ⟨object, rest, rfl⟩ := List.exists_cons_of_length_eq_add_one hcount
    have hpass := pass_handBack (hreceiver object rfl) hret
      (Nat.succ.inj hcount) hkept (h object) h'
    exact hpass.symm
  · rw [if_pos hcount, if_pos hcount]

end Proxy

/-! ## Detours -/

/-- Compiled clones leave as many arguments as they are given. -/
def Compiler.KeepsCount (c : Compiler) : Prop :=
  ∀ clone scope compiled, c.compile clone scope = .ok compiled →
    ∀ flat, (compiled flat).args.length = flat.length

/-- The clone alone behind the flat signature of its method. -/
def Detour.bareProxy (d : Detour) : Proxy Thread where
  signature := .plain d.clone.params d.method.signature.ret
  binding := .static
  handler := fun _ args thread => (d.compiled args, thread)

namespace Request

variable {r : Request} {s t u : Registry} {d : Detour}

theorem Crafted.wrap_eq (crafted : r.Crafted d) :
    d.wrap (.plain d.clone.params r.method.signature.ret) = .ok d.bareProxy := by
  obtain ⟨href, -⟩ := Detour.formOf_cases crafted.form
  have hstatic : ProxyForm.static (.plain d.clone.params r.method.signature.ret) =
      .ok ⟨.plain d.clone.params r.method.signature.ret, .static⟩ :=
    ProxyForm.of_eq_ok_iff.mpr ⟨(by decide : Convention.none.contains .vararg = false), href, rfl⟩
  have hform : d.wrapForm (.plain d.clone.params r.method.signature.ret) =
      .ok ⟨.plain d.clone.params r.method.signature.ret, .static⟩ := by
    have hcount : (Signature.plain d.clone.params r.method.signature.ret).params.length =
      d.clone.params.length := rfl
    rw [Detour.wrapForm, if_neg (not_not_intro hcount), hstatic]
  rw [Detour.wrap, hform, Detour.bareProxy, crafted.method]
  rfl

/-- The handler of a detour's own proxy answers as the clone alone. -/
theorem callTarget_surroundings_eq {b : Behaviours} {thread : Thread}
    (hkeeps : thread.lists d.method.handle = .empty ∨ b.KeepsQuiet d.method.handle)
    (hquiet : b.Quiet (thread.lists d.method.handle)) (fuel : Nat) (receiver : Option Value)
    (args : List Value) :
    (Pipeline.callTarget (u.surroundings b) fuel d.method.handle d.target receiver args thread).1 =
      Target.bare d.method.isInstance d.compiled receiver args := by
  rcases hkeeps with hempty | hkeeps
  · exact callTarget_eq_of_empty (u.surroundings b) fuel (Target.invoke_ofCompiled ..) hempty
  · have htargets : ∀ called target, (u.surroundings b).target? called = some target →
        target.KeepsQuiet b d.method.handle := by
      intro called target htarget
      obtain ⟨d', -, rfl⟩ := Option.map_eq_some_iff.mp htarget
      exact Target.keepsQuiet_ofCompiled _ _ _ _
    exact callTarget_eq (u.surroundings b) hkeeps htargets fuel
      (Target.keepsQuiet_ofCompiled _ _ _ _) (Target.invoke_ofCompiled ..) hquiet

/-- **A detour whose hooks let calls pass is transparent.** Its own proxy and the one that
calls the clone under the flat signature of the method give the same result or the same
error, and leave the arguments alike. -/
theorem wrapped_of_detour (r : Request) (s t : Registry) (d : Detour)
    (made : s.detour r = (.ok d, t)) (new : ∀ method, s.find? method ≠ some d)
    (kept : r.compiler.KeepsCount) :
    t.Linked d ∧ ∃ flat wrapped, r.method.flatParams = .ok flat ∧
      d.wrap (.plain flat r.method.signature.ret) = .ok wrapped ∧
      ∀ u : Registry, u.Linked d → ∀ (b : Behaviours) (fuel : Nat),
        ∃ own, u.proxy? b fuel d.entry = some own ∧
          ∀ (args : List Value) (thread thread' : Thread),
            (thread.lists r.method.handle = .empty ∨ b.KeepsQuiet r.method.handle) →
            b.Quiet (thread.lists r.method.handle) →
            (r.method.isInstance → ∀ object, args.head? = some object → object.Receives) →
            (own.invoke args thread).1 = ((wrapped : Proxy Thread).invoke args thread').1 := by
  obtain ⟨crafted, linked⟩ := crafted_of_detour made new
  have hflat := Clone.flatParams_of_ofMethod crafted.clone
  have hkept := kept _ _ _ crafted.compiled
  refine ⟨linked, d.clone.params, d.bareProxy, hflat, crafted.wrap_eq, fun u hlinked b fuel =>
    ⟨_, hlinked.answers b fuel, fun args thread thread' hkeeps hquiet hreceiver => ?_⟩⟩
  rw [← crafted.method] at hkeeps hquiet
  have hanswer := fun receiver boxed =>
    callTarget_surroundings_eq (u := u) hkeeps hquiet fuel receiver boxed
  obtain ⟨-, ⟨hinstance, hparams, hform⟩ | ⟨hinstance, hparams, hform⟩⟩ :=
    Detour.formOf_cases crafted.form
  · have hsame : d.clone.params = r.method.signature.params :=
      Except.ok.inj (hflat.symm.trans hparams)
    rw [hform]
    refine Proxy.invoke_static_congr rfl rfl hsame.symm ?_ hkept fun boxed => ?_
    · show r.method.signature.ret = d.method.signature.ret
      rw [crafted.method]
    · refine (hanswer none boxed).trans ?_
      rw [crafted.method, hinstance]
      rfl
  · have hsame : d.clone.params = .plain .object :: r.method.signature.params :=
      Except.ok.inj (hflat.symm.trans hparams)
    rw [hform]
    refine Proxy.invoke_thisCall_eq rfl rfl rfl hsame ?_ (hreceiver hinstance) hkept
      (fun object boxed => ?_) fun flat => rfl
    · show r.method.signature.ret = d.method.signature.ret
      rw [crafted.method]
    · refine (hanswer (some object) boxed).trans ?_
      rw [crafted.method, hinstance]
      rfl

/-- A request for a method of an object, whose clone puts a number into all that it is
given. -/
def counter : Request where
  method :=
    { name := "count", handle := ⟨2⟩, isStatic := false
      declaring := some ⟨⟨7⟩, "Counter", false, false⟩
      scope := TokenTable.empty.toScope, signature := .plain [.reference .i4] (.plain .i4)
      isGenericDefinition := false, isDynamic := false, body := some (.ofCode [0x2A])
      entryPoint := 0x10000 }
  compiler := ⟨0, fun _ _ => .ok fun flat => ⟨.ok (.i4 1), flat.map fun _ => .i4 9⟩⟩
  options := .literal

/-- Hooks that write a line and let the call pass. -/
def scribes : Behaviours where
  before hook _ args := .log hook (.done (.ok .proceed, args))
  chain hook receiver args := .log hook (.next () receiver args .done)
  after hook value _ args := .log hook (.done ⟨.ok value, args⟩)

theorem quiet_scribes (h : HookLists) : scribes.Quiet h := by
  intro phase hook _
  cases phase with
  | before => exact fun receiver args => ⟨.proceed, rfl, rfl⟩
  | chain => exact fun receiver args => ⟨rfl, rfl, fun answer => rfl⟩
  | after => exact fun value receiver args => rfl

theorem keepsQuiet_scribes (method : Handle) : scribes.KeepsQuiet method :=
  ⟨fun _ _ _ => trivial, fun _ _ _ _ => trivial, fun _ _ _ _ => trivial⟩

/-- Two chain hooks, one of each other kind. -/
def watched : Thread := { Thread.fresh with lists := fun _ => ⟨["a"], ["b", "c"], ["d"]⟩ }

theorem wrapped_of_detour_counter :
    ∃ d own wrapped, (Requests.onePage.detour counter).1 = .ok d ∧
      (Requests.onePage.detour counter).2.proxy? scribes 1 d.entry = some own ∧
      d.wrap (.plain [.plain .object, .reference .i4] (.plain .i4)) = .ok wrapped ∧
      (own.invoke [.ref 5, .i4 3] watched).1 =
        ((wrapped : Proxy Thread).invoke [.ref 5, .i4 3] .fresh).1 ∧
      (own.invoke [.ref 5, .i4 3] watched).1.result.toOption = some (.i4 1) ∧
      (own.invoke [.ref 5, .i4 3] watched).1.args = [.ref 5, .i4 9] ∧
      (own.invoke [.ref 5, .i4 3] watched).2.lines = ["a", "c", "b", "d"] := by
  have hcall : ((Requests.onePage.detour counter).1.toOption.bind fun d =>
      ((Requests.onePage.detour counter).2.proxy? scribes 1 d.entry).map fun own =>
        ((own.invoke [.ref 5, .i4 3] watched).1.result.toOption,
          (own.invoke [.ref 5, .i4 3] watched).1.args,
          (own.invoke [.ref 5, .i4 3] watched).2.lines)) =
      some (some (.i4 1), [.ref 5, .i4 9], ["a", "c", "b", "d"]) := by
    decide +kernel
  obtain ⟨d, hd, -⟩ := Option.bind_eq_some_iff.mp hcall
  rw [hd, Option.bind_some] at hcall
  generalize hrun : Requests.onePage.detour counter = run at hd hcall ⊢
  obtain ⟨answer, t⟩ := run
  obtain rfl : answer = .ok d := answer_toOption_eq_some_iff.mp hd
  have hkept : counter.compiler.KeepsCount := by
    intro clone scope compiled hcompiled flat
    cases hcompiled
    exact List.length_map ..
  obtain ⟨hlinked, flat, wrapped, hflat, hwrapped, hall⟩ :=
    wrapped_of_detour counter Requests.onePage t d hrun (fun _ => nofun) hkept
  obtain ⟨own, hown, hsame⟩ := hall _ hlinked scribes 1
  cases hflat
  rw [hown, Option.map_some] at hcall
  simp only [Option.some.injEq, Prod.mk.injEq] at hcall
  refine ⟨d, own, wrapped, rfl, hown, hwrapped, ?_, hcall⟩
  refine hsame _ watched .fresh (.inr (keepsQuiet_scribes _)) (quiet_scribes _)
    fun _ object hobject => ?_
  cases hobject
  exact .ref (by decide)

end Request

end Reroute
