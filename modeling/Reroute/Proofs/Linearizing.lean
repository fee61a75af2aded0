import Reroute.Proofs.InternSteps
import Reroute.Proofs.Issuing
/-!
# Callers that share a scope

Several callers intern into one scope, and a schedule says whose step comes
next. A call takes effect in the step that finds its entry on record or
appends it; what it does before only looks, and what it does behind only
makes its token known. The calls in the order in which they took effect
(`InternCalls.effects`) are the sequential order that explains the outcome:
made one after the other (`Interner.internAll`), they give every call the
answer that it got, and leave the entries that are there.

What is carried through every step is that the calls which have taken effect
account for all that was appended (`InternCalls.Ordered`), beside the locks
and the list of entries (`Proofs/InternSteps`).
-/

namespace Reroute

namespace InternCalls

variable {calls : InternCalls} {s s' : SharedInterner} {index : Nat} {c : InternCall}
  {phase' : InternPhase}

/-! ## The order in which calls take effect -/

/-- The call that takes effect in the step at a position, with its entry. -/
def effectAt (index : Nat) (calls : InternCalls) (s : SharedInterner) : List (Nat × Entry) :=
  match calls[index]? with
  | none => []
  | some c =>
    match c.step s with
    | none => []
    | some (phase, _) =>
      if phase.effective ∧ ¬c.phase.effective then [(index, c.entry)] else []

/-- The calls that take effect under a schedule, one behind the other. -/
def effects : (schedule : List Nat) → InternCalls → SharedInterner → List (Nat × Entry)
  | [], _, _ => []
  | index :: rest, calls, s =>
    effectAt index calls s ++ effects rest (stepAt index calls s).1 (stepAt index calls s).2

theorem run_cons (index : Nat) (rest : List Nat) (calls : InternCalls) (s : SharedInterner) :
    run (index :: rest) calls s = run rest (stepAt index calls s).1 (stepAt index calls s).2 := rfl

theorem stepAt_cases (index : Nat) (calls : InternCalls) (s : SharedInterner) :
    (stepAt index calls s = (calls, s) ∧ effectAt index calls s = []) ∨
    ∃ c phase' s', calls[index]? = some c ∧ InternCall.Moves c.entry s c.phase phase' s' ∧
      stepAt index calls s = (calls.set index ⟨c.entry, phase'⟩, s') ∧
      effectAt index calls s =
        if phase'.effective ∧ ¬c.phase.effective then [(index, c.entry)] else [] := by
  unfold stepAt effectAt
  cases hat : calls[index]? with
  | none => exact .inl ⟨rfl, rfl⟩
  | some c =>
      dsimp only
      cases hstep : c.step s with
      | none => exact .inl ⟨rfl, rfl⟩
      | some behind =>
          obtain ⟨phase', s'⟩ := behind
          exact .inr ⟨c, phase', s', rfl, InternCall.moves_of_step hstep, rfl, rfl⟩

/-! ## What has taken effect -/

/-- The calls that have taken effect, in their order, account for everything
that was appended since the scope was shared. -/
structure Ordered (shared : Interner) (order : List (Nat × Entry)) (calls : InternCalls)
    (entries : List Entry) : Prop where
  once : (order.map Prod.fst).Nodup
  mem_iff : ∀ (i : Nat) (c : InternCall), calls[i]? = some c →
    ((i, c.entry) ∈ order ↔ c.phase.effective = true)
  called : ∀ x ∈ order, (calls.map InternCall.entry)[x.1]? = some x.2
  entries : (Interner.internAll (order.map Prod.snd) shared).2.entries = entries

namespace Ordered

variable {shared : Interner} {order : List (Nat × Entry)} {entries entries' : List Entry}

theorem of_same (h : Ordered shared order calls entries) (hat : calls[index]? = some c)
    (heffective : phase'.effective = c.phase.effective) :
    Ordered shared order (calls.set index ⟨c.entry, phase'⟩) entries := by
  refine ⟨h.once, fun i d hi => ?_, (map_entry_set hat).symm ▸ h.called, h.entries⟩
  rcases getElem?_set_cases hi with ⟨rfl, rfl⟩ | ⟨-, hi⟩
  · rw [heffective]
    exact h.mem_iff i c hat
  · exact h.mem_iff i d hi

theorem concat (h : Ordered shared order calls entries) (hat : calls[index]? = some c)
    (hbefore : c.phase.effective = false) (heffective : phase'.effective = true)
    (hentries : ((Interner.internAll (order.map Prod.snd) shared).2.intern c.entry).2.entries =
      entries') :
    Ordered shared (order ++ [(index, c.entry)]) (calls.set index ⟨c.entry, phase'⟩) entries' := by
  have hnew : index ∉ order.map Prod.fst := by
    -- What is in the order has taken effect, and this call has not.
    intro hmem
    obtain ⟨x, hx, rfl⟩ := List.mem_map.mp hmem
    have hentry := h.called x hx
    rw [List.getElem?_map, hat] at hentry
    have hsame : (x.1, c.entry) = x := Prod.ext rfl (Option.some.inj hentry)
    have hnot := (h.mem_iff x.1 c hat).mp (hsame ▸ hx)
    rw [hbefore] at hnot
    cases hnot
  constructor
  case once =>
    rw [List.map_append, List.nodup_append]
    refine ⟨h.once, by simp, ?_⟩
    rintro i hi _ hlast rfl
    cases List.mem_singleton.mp hlast
    exact hnew hi
  case mem_iff =>
    intro i d hi
    rw [List.mem_append, List.mem_singleton]
    rcases getElem?_set_cases hi with ⟨rfl, rfl⟩ | ⟨hne, hi⟩
    · simp [heffective]
    · rw [← h.mem_iff i d hi]
      exact ⟨fun hmem => hmem.resolve_right fun heq => hne (congrArg Prod.fst heq), .inl⟩
  case called =>
    intro x hx
    rw [map_entry_set hat]
    rcases List.mem_append.mp hx with hx | hlast
    · exact h.called x hx
    · cases List.mem_singleton.mp hlast
      rw [List.getElem?_map, hat]
      rfl
  case entries =>
    rw [List.map_append, List.map_cons, List.map_nil, Interner.internAll_concat]
    exact hentries

theorem consistent (h : Ordered shared order calls entries) (hshared : shared.Consistent)
    (room : entries.length ≤ Token.maxRow) :
    (Interner.internAll (order.map Prod.snd) shared).2.Consistent := by
  rw [← h.entries] at room
  exact (Interner.internAll_eq _ hshared room).1

/-- A call whose entry is there finds it, also in the sequential order. -/
theorem found (h : Ordered shared order calls entries) (hat : calls[index]? = some c)
    (hshared : shared.Consistent) (room : entries.length ≤ Token.maxRow)
    (hbefore : c.phase.effective = false) (heffective : phase'.effective = true)
    (hmem : c.entry ∈ entries) :
    Ordered shared (order ++ [(index, c.entry)]) (calls.set index ⟨c.entry, phase'⟩) entries := by
  have hconsistent := h.consistent hshared room
  refine h.concat hat hbefore heffective ?_
  cases hlookup : (Interner.internAll (order.map Prod.snd) shared).2.lookup? c.entry with
  | none =>
      rw [← h.entries] at hmem
      exact absurd hmem (hconsistent.not_mem hlookup)
  | some token =>
      rw [Interner.intern_of_found hlookup]
      exact h.entries

theorem appended (h : Ordered shared order calls entries) (hat : calls[index]? = some c)
    (hshared : shared.Consistent) (room : entries.length ≤ Token.maxRow)
    (hbefore : c.phase.effective = false) (heffective : phase'.effective = true)
    (hnot : c.entry ∉ entries) :
    Ordered shared (order ++ [(index, c.entry)]) (calls.set index ⟨c.entry, phase'⟩)
      (entries ++ [c.entry]) := by
  have hconsistent := h.consistent hshared room
  rw [← h.entries] at hnot
  refine h.concat hat hbefore heffective ?_
  rw [Interner.entries_intern_of_new (hconsistent.lookup?_eq_none_iff.mpr hnot), h.entries]

theorem moves (h : Ordered shared order calls s.scope.entries) (hlisting : Listing calls s.scope)
    (hat : calls[index]? = some c) (hmoves : InternCall.Moves c.entry s c.phase phase' s')
    (hshared : shared.Consistent) (room : s.scope.size ≤ Token.maxRow) :
    Ordered shared
      (order ++ if phase'.effective ∧ ¬c.phase.effective then [(index, c.entry)] else [])
      (calls.set index ⟨c.entry, phase'⟩) s'.scope.entries := by
  have hsame : phase'.effective = c.phase.effective → Ordered shared
      (order ++ if phase'.effective ∧ ¬c.phase.effective then [(index, c.entry)] else [])
      (calls.set index ⟨c.entry, phase'⟩) s.scope.entries := by
    intro heffective
    rw [heffective, if_neg (by simp), List.append_nil]
    exact h.of_same hat heffective
  generalize hphase : c.phase = phase at hmoves hsame ⊢
  cases hmoves with
  | found hfound | foundLocked hfound =>
      obtain ⟨row, hrow, -⟩ := hlisting.placed hfound
      exact h.found hat hshared room (by rw [hphase]; rfl) rfl (List.mem_of_getElem? hrow)
  | missed | acquired | absent | recorded | refused => exact hsame rfl
  | appended =>
      have hsound := hlisting.sound index c hat
      rw [hphase] at hsound
      exact h.appended hat hshared room (by rw [hphase]; rfl) rfl hsound.not_mem

end Ordered

/-! ## Every schedule -/

/-- What holds at every moment, given the calls that have taken effect so far. -/
structure Invariant (shared : Interner) (order : List (Nat × Entry)) (calls : InternCalls)
    (s : SharedInterner) : Prop where
  locking : ∃ holder, Locking holder calls s
  listing : Listing calls s.scope
  ordered : Ordered shared order calls s.scope.entries

theorem entries_prefix_stepAt (index : Nat) (calls : InternCalls) (s : SharedInterner) :
    s.scope.entries <+: (stepAt index calls s).2.scope.entries := by
  rcases stepAt_cases index calls s with ⟨hsame, -⟩ | ⟨c, phase', s', -, hmoves, hset, -⟩
  · have hentries : (stepAt index calls s).2.scope.entries = s.scope.entries := by rw [hsame]
    exact ⟨[], (List.append_nil _).trans hentries.symm⟩
  · rw [hset]
    exact InternCall.entries_prefix_of_moves hmoves

theorem entries_prefix_run (schedule : List Nat) (calls : InternCalls) (s : SharedInterner) :
    s.scope.entries <+: (run schedule calls s).2.scope.entries := by
  induction schedule generalizing calls s with
  | nil => exact List.prefix_refl _
  | cons index rest ih => exact (entries_prefix_stepAt index calls s).trans (ih ..)

theorem run_append (front back : List Nat) (calls : InternCalls) (s : SharedInterner) :
    run (front ++ back) calls s = run back (run front calls s).1 (run front calls s).2 :=
  List.foldl_append ..

theorem effects_append (front back : List Nat) (calls : InternCalls) (s : SharedInterner) :
    effects (front ++ back) calls s =
      effects front calls s ++ effects back (run front calls s).1 (run front calls s).2 := by
  induction front generalizing calls s with
  | nil => rfl
  | cons index rest ih => rw [List.cons_append, effects, effects, ih, List.append_assoc, run_cons]

theorem mem_of_mem_effects {schedule : List Nat} {x : Nat × Entry}
    (h : x ∈ effects schedule calls s) : x.1 ∈ schedule := by
  induction schedule generalizing calls s with
  | nil => cases h
  | cons index rest ih =>
      rw [effects, List.mem_append] at h
      rcases h with hnow | hrest
      · rcases stepAt_cases index calls s with ⟨-, hnone⟩ | ⟨c, phase', s', -, -, -, heffect⟩
        · rw [hnone] at hnow
          cases hnow
        · rw [heffect] at hnow
          split at hnow
          · cases List.mem_singleton.mp hnow
            exact List.mem_cons_self
          · cases hnow
      · exact List.mem_cons_of_mem index (ih hrest)

theorem map_entry_run (schedule : List Nat) (calls : InternCalls) (s : SharedInterner) :
    (run schedule calls s).1.map InternCall.entry = calls.map InternCall.entry := by
  induction schedule generalizing calls s with
  | nil => rfl
  | cons index rest ih =>
      rw [run_cons, ih]
      rcases stepAt_cases index calls s with ⟨hsame, -⟩ | ⟨c, phase', s', hat, -, hset, -⟩
      · rw [hsame]
      · rw [hset]
        exact map_entry_set hat

namespace Invariant

variable {shared : Interner} {order : List (Nat × Entry)}

theorem stepAt (h : Invariant shared order calls s) (hshared : shared.Consistent)
    (room : s.scope.size ≤ Token.maxRow) (index : Nat) :
    Invariant shared (order ++ effectAt index calls s) (InternCalls.stepAt index calls s).1
      (InternCalls.stepAt index calls s).2 := by
  rcases stepAt_cases index calls s with ⟨hsame, hnone⟩ |
    ⟨c, phase', s', hat, hmoves, hset, heffect⟩
  · rw [hsame, hnone, List.append_nil]
    exact h
  · obtain ⟨holder, hlocking⟩ := h.locking
    rw [hset, heffect]
    exact ⟨hlocking.moves hat hmoves, h.listing.moves hlocking hat hmoves room,
      h.ordered.moves h.listing hat hmoves hshared room⟩

theorem run (h : Invariant shared order calls s) (hshared : shared.Consistent)
    (schedule : List Nat)
    (room : (InternCalls.run schedule calls s).2.scope.size ≤ Token.maxRow) :
    Invariant shared (order ++ effects schedule calls s) (InternCalls.run schedule calls s).1
      (InternCalls.run schedule calls s).2 := by
  induction schedule generalizing order calls s with
  | nil =>
      rw [effects, List.append_nil]
      exact h
  | cons index rest ih =>
      rw [effects, ← List.append_assoc]
      rw [run_cons] at room ⊢
      have hnow : s.scope.size ≤ Token.maxRow :=
        Nat.le_trans (entries_prefix_run (index :: rest) calls s).length_le room
      exact ih (h.stepAt hshared hnow index) room

theorem answer_eq (h : Invariant shared order calls s) {i : Nat} {entry : Entry}
    {result : Except Error Token} (hdone : calls[i]? = some ⟨entry, .done result⟩) :
    s.scope.entries[s.scope.entries.idxOf entry]? = some entry ∧
      result = .ok (Interner.rowToken entry (s.scope.entries.idxOf entry)) := by
  have hsound : Sound s.scope entry (.done result) := h.listing.sound i _ hdone
  obtain ⟨row, hrow, rfl⟩ := hsound.exists_of_done
  obtain ⟨hlt, hentry⟩ := List.getElem?_eq_some_iff.mp hrow
  have hplace := h.listing.nodup.idxOf_getElem row hlt
  rw [hentry] at hplace
  rw [hplace]
  exact ⟨hrow, rfl⟩

end Invariant

/-! ## What it means for those who call -/

/-- How calls for some entries and their scope stand behind a schedule. -/
def outcome (asked : List Entry) (scope : Interner) (schedule : List Nat) :
    InternCalls × SharedInterner :=
  run schedule (asked.map .start) (.ofScope scope)

def Returned (calls : InternCalls) (i : Nat) (entry : Entry) (result : Except Error Token) : Prop :=
  calls[i]? = some ⟨entry, .done result⟩

/-- The first call has come back before the second one makes a step. -/
def Precedes (asked : List Entry) (scope : Interner) (schedule : List Nat) (i j : Nat) : Prop :=
  ∃ front back, schedule = front ++ back ∧ j ∉ front ∧
    ∃ entry result, Returned (outcome asked scope front).1 i entry result

/-- Calls made one after the other, each named with its entry, explain what a
schedule has led to: all that have come back are among them, they give each
the answer that it got and leave the entries that are there, and a call that
another one precedes comes behind it. -/
structure Explains (asked : List Entry) (scope : Interner) (schedule : List Nat)
    (order : List (Nat × Entry)) : Prop where
  unique : (order.map Prod.fst).Nodup
  called : ∀ x ∈ order, asked[x.1]? = some x.2
  complete : ∀ i entry result, Returned (outcome asked scope schedule).1 i entry result →
    (i, entry) ∈ order
  answers : ∀ (k i : Nat) (entry : Entry) (result : Except Error Token),
    order[k]? = some (i, entry) →
    Returned (outcome asked scope schedule).1 i entry result →
    (Interner.internAll (order.map Prod.snd) scope).1[k]? = some result
  entries : (Interner.internAll (order.map Prod.snd) scope).2.entries =
    (outcome asked scope schedule).2.scope.entries
  realTime : ∀ i j, Precedes asked scope schedule i j →
    (order.map Prod.fst).idxOf i < (order.map Prod.fst).idxOf j

/-- What those who call can rely on behind a schedule. -/
structure Linearized (asked : List Entry) (scope : Interner) (schedule : List Nat) : Prop where
  answered : ∀ i entry result, Returned (outcome asked scope schedule).1 i entry result →
    ∃ token, result = .ok token
  token_iff : ∀ i j entry entry' token token',
    Returned (outcome asked scope schedule).1 i entry (.ok token) →
    Returned (outcome asked scope schedule).1 j entry' (.ok token') →
    (token = token' ↔ entry = entry')
  /-- No entry is appended twice, and none that nobody asked for. -/
  appended : ∃ behind, (outcome asked scope schedule).2.scope.entries = scope.entries ++ behind ∧
    (scope.entries ++ behind).Nodup ∧ ∀ entry ∈ behind, entry ∈ asked
  listed : ∀ i entry result, Returned (outcome asked scope schedule).1 i entry result →
    entry ∈ (outcome asked scope schedule).2.scope.entries
  serial : ∃ order, Explains asked scope schedule order
  /-- As long as a call has not come back, one can make a step. -/
  progress : (∃ c ∈ (outcome asked scope schedule).1, c.result? = none) →
    ∃ c ∈ (outcome asked scope schedule).1, (c.step (outcome asked scope schedule).2).isSome

section outcomes

variable {asked : List Entry} {scope : Interner} {schedule : List Nat}

theorem invariant_start (asked : List Entry) (h : scope.Consistent) :
    Invariant scope [] (asked.map .start) (.ofScope scope) := by
  have hstart : ∀ (i : Nat) (c : InternCall), (asked.map InternCall.start)[i]? = some c →
      c.phase = .lookup := by
    intro i c hi
    rw [List.getElem?_map] at hi
    obtain ⟨entry, -, rfl⟩ := Option.map_eq_some_iff.mp hi
    rfl
  constructor
  case locking =>
    refine ⟨fun _ => none, List.nodup_nil, ?_, fun i c hi => ?_, ?_⟩
    · simp [SharedInterner.ofScope]
    · simp [hstart i c hi, InternPhase.holds]
    · simp
  case listing =>
    refine ⟨h.nodup, h.lookup?_eq_some_iff.mp, fun hmem hnone => ?_, fun i c hi => ?_⟩
    · exact absurd hmem (h.not_mem hnone)
    · rw [hstart i c hi]
      exact .lookup
  case ordered =>
    refine ⟨List.nodup_nil, fun i c hi => ?_, fun x hx => ?_, rfl⟩
    · simp [hstart i c hi, InternPhase.effective]
    · cases hx

theorem invariant_outcome (h : scope.Consistent)
    (room : (outcome asked scope schedule).2.scope.size ≤ Token.maxRow) :
    Invariant scope (effects schedule (asked.map .start) (.ofScope scope))
      (outcome asked scope schedule).1 (outcome asked scope schedule).2 := by
  have hbehind := (invariant_start asked h).run h schedule room
  rwa [List.nil_append] at hbehind

theorem map_entry_outcome :
    (outcome asked scope schedule).1.map InternCall.entry = asked := by
  rw [outcome, map_entry_run, List.map_map]
  exact List.map_id asked

theorem mem_effects_of_returned (h : scope.Consistent)
    (room : (outcome asked scope schedule).2.scope.size ≤ Token.maxRow) {i : Nat} {entry : Entry}
    {result : Except Error Token}
    (hreturned : Returned (outcome asked scope schedule).1 i entry result) :
    (i, entry) ∈ effects schedule (asked.map .start) (.ofScope scope) :=
  ((invariant_outcome h room).ordered.mem_iff i _ hreturned).mpr rfl

/-- A call takes effect between its first step and its last. -/
theorem idxOf_effects_lt (h : scope.Consistent)
    (room : (outcome asked scope schedule).2.scope.size ≤ Token.maxRow) {i j : Nat}
    (hprecedes : Precedes asked scope schedule i j) :
    ((effects schedule (asked.map .start) (.ofScope scope)).map Prod.fst).idxOf i <
      ((effects schedule (asked.map .start) (.ofScope scope)).map Prod.fst).idxOf j := by
  obtain ⟨front, back, rfl, hlater, entry, result, hreturned⟩ := hprecedes
  have hroom : (outcome asked scope front).2.scope.size ≤ Token.maxRow := by
    refine Nat.le_trans ?_ room
    rw [outcome, outcome, run_append]
    exact (entries_prefix_run ..).length_le
  have hmem : i ∈ (effects front (asked.map .start) (.ofScope scope)).map Prod.fst :=
    List.mem_map.mpr ⟨_, mem_effects_of_returned h hroom hreturned, rfl⟩
  have hnot : j ∉ (effects front (asked.map .start) (.ofScope scope)).map Prod.fst := by
    intro hj
    obtain ⟨x, hx, rfl⟩ := List.mem_map.mp hj
    exact hlater (mem_of_mem_effects hx)
  -- The first call stands among the effects of the front part, the second one behind them all.
  rw [effects_append, List.map_append, List.idxOf_append, List.idxOf_append, if_pos hmem,
    if_neg hnot]
  have hlt := List.idxOf_lt_length_iff.mpr hmem
  omega

theorem explains_effects (h : scope.Consistent)
    (room : (outcome asked scope schedule).2.scope.size ≤ Token.maxRow) :
    Explains asked scope schedule (effects schedule (asked.map .start) (.ofScope scope)) := by
  have hinvariant := invariant_outcome h room
  have hordered := hinvariant.ordered
  constructor
  case unique => exact hordered.once
  case called =>
    intro x hx
    have hcalled := hordered.called x hx
    rwa [map_entry_outcome] at hcalled
  case complete => exact fun i entry result => mem_effects_of_returned h room
  case answers =>
    intro k i entry result hk hreturned
    have hsize := room
    rw [Interner.size, ← hordered.entries] at hsize
    obtain ⟨-, hanswers⟩ := Interner.internAll_eq _ h hsize
    obtain ⟨-, rfl⟩ := hinvariant.answer_eq hreturned
    rw [hanswers, hordered.entries, List.getElem?_map, List.getElem?_map, hk]
    rfl
  case entries => exact hordered.entries
  case realTime => exact fun i j => idxOf_effects_lt h room

/-- Whoever waits for a lock waits for a call that can make a step. -/
theorem Invariant.exists_step {order : List (Nat × Entry)} {calls : InternCalls}
    {s : SharedInterner} (h : Invariant scope order calls s)
    (hwaiting : ∃ c ∈ calls, c.result? = none) : ∃ c ∈ calls, (c.step s).isSome := by
  obtain ⟨holder, hlocking⟩ := h.locking
  obtain ⟨⟨entry, phase⟩, hc, hresult⟩ := hwaiting
  have hholds : phase.holds = true → ∃ c ∈ calls, (c.step s).isSome :=
    fun hholds => ⟨_, hc, InternCall.isSome_step_of_holds hholds⟩
  cases phase with
  | lookup => exact ⟨_, hc, rfl⟩
  | acquire =>
      by_cases hlocked : entry ∈ s.locked
      · obtain ⟨i, hholder⟩ := Option.isSome_iff_exists.mp ((hlocking.mem_iff entry).mp hlocked)
        have hheld := hlocking.held entry i hholder
        rw [List.getElem?_map] at hheld
        obtain ⟨d, hd, rfl⟩ := Option.map_eq_some_iff.mp hheld
        exact ⟨d, List.mem_of_getElem? hd,
          InternCall.isSome_step_of_holds ((hlocking.holds_iff i d hd).mpr hholder)⟩
      · refine ⟨_, hc, ?_⟩
        simp only [InternCall.step, if_neg hlocked]
        rfl
  | check | append | record => exact hholds rfl
  | done => cases hresult

/-- **Interning into a shared scope is linearizable**, whatever the schedule. -/
theorem outcome_linearized (asked : List Entry) (scope : Interner) (schedule : List Nat)
    (h : scope.Reachable)
    (room : (outcome asked scope schedule).2.scope.size ≤ Token.maxRow) :
    Linearized asked scope schedule := by
  have hgrown : scope.entries <+: (outcome asked scope schedule).2.scope.entries :=
    entries_prefix_run schedule (asked.map .start) (.ofScope scope)
  have hscope : scope.Consistent := h.consistent (Nat.le_trans hgrown.length_le room)
  have hinvariant := invariant_outcome hscope room
  have hexplains := explains_effects hscope room
  constructor
  case answered =>
    intro i entry result hreturned
    exact ⟨_, (hinvariant.answer_eq hreturned).2⟩
  case token_iff =>
    intro i j entry entry' token token' hi hj
    obtain ⟨hrow, htoken⟩ := hinvariant.answer_eq hi
    obtain ⟨hrow', htoken'⟩ := hinvariant.answer_eq hj
    cases htoken
    cases htoken'
    refine ⟨fun heq => ?_, fun heq => by rw [heq]⟩
    have hget := Interner.get?_rowToken hrow room
    rw [heq, Interner.get?_rowToken hrow' room] at hget
    exact (Option.some.inj hget).symm
  case appended =>
    obtain ⟨behind, hbehind⟩ := hgrown
    have hnodup := hinvariant.listing.nodup
    rw [← hbehind] at hnodup
    refine ⟨behind, hbehind.symm, hnodup, fun entry hentry => ?_⟩
    have hmem : entry ∈ (outcome asked scope schedule).2.scope.entries :=
      hbehind ▸ List.mem_append_right _ hentry
    rw [← hexplains.entries] at hmem
    rcases Interner.mem_of_mem_internAll hmem with hold | hnew
    · exact absurd rfl ((List.nodup_append.mp hnodup).2.2 entry hold entry hentry)
    · obtain ⟨x, hx, rfl⟩ := List.mem_map.mp hnew
      exact List.mem_of_getElem? (hexplains.called x hx)
  case listed =>
    intro i entry result hreturned
    exact List.mem_of_getElem? (hinvariant.answer_eq hreturned).1
  case serial => exact ⟨_, hexplains⟩
  case progress => exact hinvariant.exists_step

end outcomes

/-- Two calls for one literal have looked before one of them appends it, and
a call for another literal appends and records in between. -/
def overlap : List Nat := [0, 2, 1, 0, 1, 0, 1, 0, 2, 1, 1, 0, 2, 2]

theorem outcome_linearized_overlap :
    (outcome [.string "a", .string "b", .string "a"] .empty overlap).2.scope.entries =
        [.string "a", .string "b"] ∧
      Linearized [.string "a", .string "b", .string "a"] .empty overlap := by
  have hentries : (outcome [.string "a", .string "b", .string "a"] .empty
      overlap).2.scope.entries = [.string "a", .string "b"] := by decide +kernel
  refine ⟨hentries, outcome_linearized _ _ _ (.refl _) ?_⟩
  rw [Interner.size, hentries]
  decide

end InternCalls

end Reroute
