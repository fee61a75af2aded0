import Reroute.Proofs.InstallSteps
/-!
# One detour to a method

Requests to detour methods are made by many threads at once, and a schedule says
whose step comes next. The first look at the registry is made without the lock,
so what it found may be out of date when the lock is taken; only the second look,
made with the lock, counts.

The invariant (`Invariant`) ties the lock, the registry and the patched entry points
together: the holder of the lock is the one request that is between taking it and
giving it back, and a method whose entry point was redirected has a detour or is about
to be given one. Each step keeps it (`Invariant.stepAt`), so every schedule does
(`Invariant.run`). `run_orderly` is what this means for those who ask.

That an entry point was redirected is read off memory. The steps that count as patches
(`patchedAt`) are those that put a jump to the proxy there, and no other step changes a
byte of a mapped page (`Invariant.sameMapped_of_stepAt`, `Invariant.jump_of_stepAt`).
-/

namespace Reroute

namespace Requests

variable {requests : Requests} {s : Registry} {index : Nat} {r : Request} {phase : Phase}

/-- The method whose entry point the step at a position redirects. -/
def patchedAt (index : Nat) (requests : Requests) (s : Registry) : List Handle :=
  match requests[index]? with
  | some (r, phase) => if r.patches phase s then [r.method.handle] else []
  | none => []

/-- The methods whose entry points a schedule redirects, one for each time. -/
def patched : (schedule : List Nat) → Requests → Registry → List Handle
  | [], _, _ => []
  | index :: rest, requests, s =>
    patchedAt index requests s ++
      patched rest (stepAt index requests s).1 (stepAt index requests s).2

theorem run_cons (index : Nat) (rest : List Nat) (requests : Requests) (s : Registry) :
    run (index :: rest) requests s =
      run rest (stepAt index requests s).1 (stepAt index requests s).2 := rfl

theorem stepAt_cases (index : Nat) (requests : Requests) (s : Registry) :
    (stepAt index requests s = (requests, s) ∧ patchedAt index requests s = []) ∨
    ∃ r phase phase' s', requests[index]? = some (r, phase) ∧
      r.step index phase s = some (phase', s') ∧
      stepAt index requests s = (requests.set index (r, phase'), s') := by
  unfold stepAt patchedAt
  cases hat : requests[index]? with
  | none => exact .inl ⟨rfl, rfl⟩
  | some entry =>
      obtain ⟨r, phase⟩ := entry
      cases hstep : r.step index phase s with
      | none =>
          refine .inl ⟨by simp only [hstep], if_neg fun hpatches => ?_⟩
          obtain ⟨d, s', -, hsome⟩ := r.step_of_patches index hpatches
          rw [hstep] at hsome
          cases hsome
      | some behind =>
          obtain ⟨phase', s'⟩ := behind
          exact .inr ⟨r, phase, phase', s', rfl, hstep, by simp only [hstep]⟩

/-- What holds of the request at a position. -/
structure Placed (index : Nat) (r : Request) (s : Registry) (phase : Phase) : Prop where
  plain : r.Plain
  sound : r.Sound s phase
  lock : phase.holds = true ↔ s.holder = some index

/-- What holds at every moment, given the methods patched so far. -/
structure Invariant (patched : List Handle) (requests : Requests) (s : Registry) : Prop where
  unique : (s.detours.map Prod.fst).Nodup
  placed : ∀ (i : Nat) (r : Request) (phase : Phase), requests[i]? = some (r, phase) →
    Placed i r s phase
  once : patched.Nodup
  /-- A patched method has a detour or is about to be given one. -/
  covered : ∀ method ∈ patched, (∃ d, s.find? method = some d) ∨
    ∃ (i : Nat) (r : Request) (d : Detour),
      requests[i]? = some (r, .insert d) ∧ r.method.handle = method

theorem patchedAt_of_getElem? (h : requests[index]? = some (r, phase)) :
    patchedAt index requests s = if r.patches phase s then [r.method.handle] else [] := by
  rw [patchedAt, h]

namespace Placed

variable {s' : Registry} {phase' : Phase} {i : Nat} {r' : Request} {other : Phase}

theorem moves (h : Placed index r s phase) (hmoves : r.Moves index s phase phase' s') :
    Placed index r s' phase' := by
  refine ⟨h.plain, h.sound.moves hmoves, ?_⟩
  rcases Request.lock_of_moves hmoves with ⟨hholds, hholder⟩ | ⟨-, hholds, -, hholder⟩ |
    ⟨-, hholds, hholder⟩
  · rw [hholds, hholder]
    exact h.lock
  · simp [hholds, hholder]
  · simp [hholds, hholder]

/-- Every other request stays placed too: it does not have the lock if the step needs it. -/
theorem later (h : Placed index r s phase) (hmoves : r.Moves index s phase phase' s')
    (hother : Placed i r' s other) (hne : i ≠ index) : Placed i r' s' other := by
  refine ⟨hother.plain, hother.sound.later (fun _ _ => h.sound.kept hmoves) ?_, ?_⟩
  · intro hholds
    rcases Request.detours_of_moves hmoves with hsame | ⟨d, rfl, -⟩
    · exact hsame
    · have hholder := h.lock.mp rfl
      rw [hother.lock.mp hholds] at hholder
      exact absurd (Option.some.inj hholder) hne
  · rw [hother.lock]
    rcases Request.lock_of_moves hmoves with ⟨-, hholder⟩ | ⟨-, -, hfree, hholder⟩ |
      ⟨hholds, -, hholder⟩
    · rw [hholder]
    · simp [hfree, hholder, Ne.symm hne]
    · simp [h.lock.mp hholds, hholder, Ne.symm hne]

end Placed

namespace Invariant

variable {past : List Handle} {s' : Registry} {phase' : Phase}

/-- A method whose entry point is about to be redirected has not been patched. -/
theorem not_mem_of_patch (h : Invariant past requests s) {d : Detour}
    (hat : requests[index]? = some (r, .patch d)) : r.method.handle ∉ past := by
  intro hmem
  have hplaced := h.placed index r _ hat
  rcases h.covered _ hmem with ⟨d', hfind⟩ | ⟨i, r', d', hother, -⟩
  · rw [hplaced.sound.absent rfl] at hfind
    cases hfind
  · have hholder := hplaced.lock.mp rfl
    rw [(h.placed i r' _ hother).lock.mp rfl] at hholder
    cases hholder
    rw [hat] at hother
    cases hother

/-- A patched method stays covered: the request that is about to give it a
detour does so in its next step. -/
theorem covered_of_moves (h : Invariant past requests s) (hat : requests[index]? = some (r, phase))
    (hmoves : r.Moves index s phase phase' s') {method : Handle} (hmem : method ∈ past) :
    (∃ d, s'.find? method = some d) ∨ ∃ (i : Nat) (r' : Request) (d : Detour),
      (requests.set index (r, phase'))[i]? = some (r', .insert d) ∧ r'.method.handle = method := by
  have hplaced := h.placed index r phase hat
  rcases h.covered method hmem with ⟨d, hfind⟩ | ⟨i, r', d, hother, hmethod⟩
  · exact .inl ⟨d, hplaced.sound.kept hmoves hfind⟩
  · by_cases hi : index = i
    · subst hi
      cases hat.symm.trans hother
      cases Request.done_of_moves_insert hmoves
      exact .inl ⟨d, hmethod ▸ (hplaced.moves hmoves).sound.find?_of_given⟩
    · exact .inr ⟨i, r', d, by rw [List.getElem?_set_ne hi, hother], hmethod⟩

theorem stepAt (h : Invariant past requests s) (index : Nat) :
    Invariant (past ++ patchedAt index requests s) (Requests.stepAt index requests s).1
      (Requests.stepAt index requests s).2 := by
  rcases stepAt_cases index requests s with ⟨hsame, hnone⟩ | ⟨r, phase, phase', s', hat, hstep, hset⟩
  · rw [hsame, hnone, List.append_nil]
    exact h
  · have hplaced := h.placed index r phase hat
    have hmoves := Request.moves_of_step hplaced.plain hstep
    rw [hset]
    constructor
    case unique =>
      rcases Request.detours_of_moves hmoves with hdetours | ⟨d, -, -, hdetours⟩
      · rw [hdetours]
        exact h.unique
      · rw [hdetours]
        exact Registry.nodup_insert h.unique d
    case placed =>
      intro i r' other hi
      rcases getElem?_set_cases hi with ⟨rfl, hentry⟩ | ⟨hne, hi⟩
      · cases hentry
        exact hplaced.moves hmoves
      · exact hplaced.later hmoves (h.placed i r' other hi) hne
    case once =>
      by_cases hpatches : r.patches phase s = true
      · obtain ⟨d, _, rfl, -⟩ := r.step_of_patches index hpatches
        rw [patchedAt_of_getElem? hat, if_pos hpatches]
        refine List.nodup_append.mpr ⟨h.once, by simp, ?_⟩
        rintro method hmem _ hlast rfl
        cases List.mem_singleton.mp hlast
        exact h.not_mem_of_patch hat hmem
      · rw [patchedAt_of_getElem? hat, if_neg hpatches, List.append_nil]
        exact h.once
    case covered =>
      intro method hmem
      rcases List.mem_append.mp hmem with hpast | hnow
      · exact h.covered_of_moves hat hmoves hpast
      · rw [patchedAt_of_getElem? hat] at hnow
        split at hnow
        · rename_i hpatches
          obtain ⟨d, _, rfl, hinsert⟩ := r.step_of_patches index hpatches
          cases hstep.symm.trans hinsert
          cases List.mem_singleton.mp hnow
          exact .inr ⟨index, r, d, getElem?_set_self_of_getElem? hat, rfl⟩
        · cases hnow

theorem run (h : Invariant past requests s) (schedule : List Nat) :
    Invariant (past ++ patched schedule requests s) (Requests.run schedule requests s).1
      (Requests.run schedule requests s).2 := by
  induction schedule generalizing past requests s with
  | nil =>
      rw [patched, List.append_nil]
      exact h
  | cons index rest ih =>
      rw [patched, ← List.append_assoc, run_cons]
      exact ih (h.stepAt index)

/-- What a step leaves of mapped memory: all of it, if it is not a patch. -/
theorem sameMapped_of_stepAt (h : Invariant past requests s)
    (hquiet : patchedAt index requests s = []) :
    s.space.SameMapped (Requests.stepAt index requests s).2.space.memory := by
  rcases stepAt_cases index requests s with ⟨hsame, -⟩ | ⟨r, phase, phase', s', hat, hstep, hset⟩
  · rw [hsame]
    exact AddressSpace.sameMapped_of_eq rfl
  · have hmoves := Request.moves_of_step (h.placed index r phase hat).plain hstep
    rw [patchedAt_of_getElem? hat, ite_eq_right_iff] at hquiet
    rw [hset]
    refine Request.sameMapped_of_moves hmoves (Bool.eq_false_iff.mpr fun hpatches => ?_)
    cases hquiet hpatches

/-- And a patch leaves the jump. -/
theorem jump_of_stepAt (h : Invariant past requests s) {method : Handle}
    (hmem : method ∈ patchedAt index requests s) :
    ∃ (r : Request) (d : Detour), requests[index]? = some (r, .patch d) ∧
      r.method.handle = method ∧
      (Requests.stepAt index requests s).2.space.memory.read
        (Patch.site .x64 r.options s.space.memory r.method.entryPoint) 12 =
          Redirector.jump64 d.entry := by
  rcases stepAt_cases index requests s with ⟨-, hnone⟩ | ⟨r, phase, phase', s', hat, hstep, hset⟩
  · rw [hnone] at hmem
    cases hmem
  · have hmoves := Request.moves_of_step (h.placed index r phase hat).plain hstep
    rw [patchedAt_of_getElem? hat] at hmem
    rw [hset]
    split at hmem
    · rename_i hpatches
      obtain ⟨d, rfl, hjump⟩ := Request.jump_of_moves hmoves hpatches
      exact ⟨r, d, hat, (List.mem_singleton.mp hmem).symm, hjump⟩
    · cases hmem

theorem stays (h : Invariant past requests s) (more : List Nat) {method : Handle} {d : Detour}
    (hfind : s.find? method = some d) :
    (Requests.run more requests s).2.find? method = some d ∧ method ∉ patched more requests s := by
  induction more generalizing past requests s with
  | nil => exact ⟨hfind, List.not_mem_nil⟩
  | cons index rest ih =>
      have hbehind := h.stepAt index
      rw [run_cons, patched, List.mem_append]
      rcases stepAt_cases index requests s with ⟨hsame, hnone⟩ |
        ⟨r, phase, phase', s', hat, hstep, hset⟩
      · rw [hsame] at hbehind ⊢
        obtain ⟨hlater, hnever⟩ := ih hbehind hfind
        exact ⟨hlater, fun hmem => hmem.elim (by simp [hnone]) hnever⟩
      · have hplaced := h.placed index r phase hat
        have hkept := hplaced.sound.kept (Request.moves_of_step hplaced.plain hstep) hfind
        rw [hset] at hbehind ⊢
        obtain ⟨hlater, hnever⟩ := ih hbehind hkept
        refine ⟨hlater, fun hmem => hmem.elim (fun hnow => ?_) hnever⟩
        rw [patchedAt_of_getElem? hat] at hnow
        split at hnow
        · rename_i hpatches
          obtain ⟨d', _, rfl, -⟩ := r.step_of_patches index hpatches
          cases List.mem_singleton.mp hnow
          rw [hplaced.sound.absent rfl] at hfind
          cases hfind
        · cases hnow

end Invariant

/-! ## What it means for those who ask -/

/-- Requests of which none has made a step. -/
def fresh (asked : List Request) : Requests := asked.map fun r => (r, .lookup)

theorem invariant_fresh {asked : List Request} (plain : ∀ r ∈ asked, r.Plain)
    (unique : (s.detours.map Prod.fst).Nodup) (free : s.holder = none) :
    Invariant [] (fresh asked) s := by
  refine ⟨unique, ?_, List.nodup_nil, fun method hmem => by cases hmem⟩
  intro i r phase hat
  rw [fresh, List.getElem?_map] at hat
  obtain ⟨r', hr', heq⟩ := Option.map_eq_some_iff.mp hat
  cases heq
  refine ⟨plain r (List.mem_of_getElem? hr'), .lookup, ?_⟩
  simp [Phase.holds, free]

/-- How requests and the registry stand at a moment, where some methods have been
patched before and a schedule is still to come. -/
structure Orderly (before : List Handle) (requests : Requests) (s : Registry)
    (more : List Nat) : Prop where
  /-- There is at most one detour to a method. -/
  unique : (s.detours.map Prod.fst).Nodup
  /-- It is never replaced or removed. -/
  stays : ∀ method d, s.find? method = some d → (run more requests s).2.find? method = some d
  /-- It is what every request gets that gets a detour. -/
  registered : ∀ (r : Request) (d : Detour), (r, .done (.ok d)) ∈ requests →
    s.find? r.method.handle = some d
  same : ∀ (r r' : Request) (d d' : Detour), (r, .done (.ok d)) ∈ requests →
    (r', .done (.ok d')) ∈ requests → r.method.handle = r'.method.handle → d = d'
  /-- No method is patched twice, nor once it has a detour. -/
  once : before.Nodup
  never : ∀ method d, s.find? method = some d → method ∉ patched more requests s
  /-- Nothing but a patch of a method changes a byte of a mapped page. -/
  still : ∀ index, patchedAt index requests s = [] →
    s.space.SameMapped (stepAt index requests s).2.space.memory
  /-- A patch puts the jump to the method's proxy where its entry point leads. -/
  redirects : ∀ (index : Nat) (method : Handle), method ∈ patchedAt index requests s →
    ∃ (r : Request) (d : Detour), requests[index]? = some (r, .patch d) ∧
      r.method.handle = method ∧
      (stepAt index requests s).2.space.memory.read
        (Patch.site .x64 r.options s.space.memory r.method.entryPoint) 12 =
          Redirector.jump64 d.entry
  /-- Nobody is told that the method is detoured already. -/
  final : ∀ (r : Request) (e : Error), (r, .done (.error e)) ∈ requests → e.Final
  /-- A request that was beaten finds the detour of the one that was faster. -/
  beaten : ∀ (index : Nat) (r : Request) (method : Handle),
    requests[index]? = some (r, .retry method) →
      ∃ d, r.step index (.retry method) s = some (.done (.ok d), s)
  /-- A request that finds a detour at once has it, and nothing else happens. -/
  atOnce : ∀ (index : Nat) (r : Request) (d : Detour), requests[index]? = some (r, .lookup) →
    s.find? r.method.handle = some d →
      stepAt index requests s = (requests.set index (r, .done (.ok d)), s)

theorem Invariant.orderly {past : List Handle} (h : Invariant past requests s) (more : List Nat) :
    Orderly past requests s more := by
  have hregistered : ∀ (r : Request) (d : Detour), (r, .done (.ok d)) ∈ requests →
      s.find? r.method.handle = some d := by
    intro r d hmem
    obtain ⟨i, hi⟩ := List.mem_iff_getElem?.mp hmem
    exact (h.placed i r _ hi).sound.find?_of_given
  constructor
  case unique => exact h.unique
  case stays => exact fun method d hfind => (h.stays more hfind).1
  case registered => exact hregistered
  case same =>
    intro r r' d d' hmem hmem' hmethod
    have hfind := hregistered r d hmem
    rw [hmethod, hregistered r' d' hmem'] at hfind
    exact (Option.some.inj hfind).symm
  case once => exact h.once
  case never => exact fun method d hfind => (h.stays more hfind).2
  case still => exact fun index hquiet => h.sameMapped_of_stepAt hquiet
  case redirects => exact fun index method hmem => h.jump_of_stepAt hmem
  case final =>
    intro r e hmem
    obtain ⟨i, hi⟩ := List.mem_iff_getElem?.mp hmem
    exact (h.placed i r _ hi).sound.final_of_refused
  case beaten =>
    intro index r method hat
    obtain ⟨-, d, hfind⟩ := (h.placed index r _ hat).sound.find?_of_retry
    refine ⟨d, ?_⟩
    unfold Request.step
    simp only [hfind]
  case atOnce =>
    intro index r d hat hfind
    have hstep : r.step index .lookup s = some (.done (.ok d), s) := by
      unfold Request.step
      simp only [hfind]
    unfold Requests.stepAt
    rw [hat]
    simp only [hstep]

/-- **At most one detour to a method, whatever the schedule.** -/
theorem run_orderly (asked : List Request) (plain : ∀ r ∈ asked, r.Plain) (s : Registry)
    (unique : (s.detours.map Prod.fst).Nodup) (free : s.holder = none)
    (schedule more : List Nat) :
    Orderly (patched schedule (fresh asked) s) (run schedule (fresh asked) s).1
      (run schedule (fresh asked) s).2 more :=
  ((invariant_fresh plain unique free).run schedule).orderly more

/-- A request for a method that returns at once. -/
def idle : Request where
  method :=
    { name := "idle", handle := ⟨1⟩, isStatic := true, declaring := none
      scope := TokenTable.empty.toScope, signature := .plain [] (.plain .void)
      isGenericDefinition := false, isDynamic := false, body := some (.ofCode [0x2A])
      entryPoint := 0x10000 }
  compiler := ⟨0, fun _ _ => .ok fun args => ⟨.ok .null, args⟩⟩
  options := .literal

/-- Where the proxy of the detour stands that a request got. -/
def given? : Request × Phase → Option UInt64
  | (_, .done (.ok d)) => some d.entry
  | _ => none

/-- Both requests have looked before one of them takes the lock. -/
def race : List Nat := [0, 1] ++ List.replicate 9 0 ++ List.replicate 9 1

/-- One page is mapped, with the code of a method in it, and no method is detoured. -/
def onePage : Registry :=
  .empty ⟨.zero, ⟨fun page => if page = 0x10 then some .code else none⟩, 0x20000⟩

theorem plain_idle : idle.Plain where
  compiler _ _ := .ok _
  scope := TokenTable.empty.plain_toScope

theorem run_orderly_race :
    ((run race (fresh [idle, idle]) onePage).1.map given? = [some 0x20000, some 0x20000] ∧
      patched race (fresh [idle, idle]) onePage = [⟨1⟩] ∧
      (run race (fresh [idle, idle]) onePage).2.space.memory.read 0x10000 12 =
        Redirector.jump64 0x20000) ∧
    Orderly (patched race (fresh [idle, idle]) onePage) (run race (fresh [idle, idle]) onePage).1
      (run race (fresh [idle, idle]) onePage).2 race :=
  ⟨by decide +kernel,
    run_orderly [idle, idle] (by simp [plain_idle]) onePage List.nodup_nil rfl race race⟩

end Requests

end Reroute
